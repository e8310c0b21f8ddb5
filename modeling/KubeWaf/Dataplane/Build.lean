import KubeWaf.DataFiles.Discover
import KubeWaf.Dataplane.Directives
import KubeWaf.Dataplane.Payload
import Mathlib

/-!
# Building the portable configuration of a WAF

`BuildFromWAF` of `internal/dataplane/config/build.go` and `Build` of
`internal/dataplane/pipeline/pipeline.go`. What `Build` reads from the cluster is a parameter: the
outcome of resolving the rules, of the HMAC key and of the provider discovery, and the lists of
the WAF's namespace. The results that `Build` returns next to an error only serve the status of
the WAF and are left out, as are the parts of the plugin JSON that hold no rules.
-/

namespace KubeWaf.Dataplane

open Lib
open DataFiles (Bytes CrsData RuleSetLists PhraseFilesResult WafFiles)

/-! ## The spec of a WAF -/

/-- The constants of `TelemetryMode`. -/
inductive TelemetryMode where
  | none
  | managed
  deriving DecidableEq

structure SecretKeyRef where
  name : String
  key : String
  deriving DecidableEq

structure ChallengeSpec where
  enabled : Option Bool := none
  secret : String := ""
  secretRef : Option SecretKeyRef := none
  deriving DecidableEq

structure IstioProvider where
  workloadSelector : List (String × String) := []
  context : String := ""
  deriving DecidableEq

structure WAFProvider where
  type : ProviderType := .text ""
  ecdsCluster : String := ""
  ecdsService : String := ""
  istio : Option IstioProvider := none
  deriving DecidableEq

/-- A `WAF`. -/
structure WAF where
  ns : String
  name : String
  /-- The WAF has a deletion timestamp. -/
  deleting : Bool := false
  directives : WafDirectives := {}
  phraseListPolicy : String := ""
  provider : Option WAFProvider := none
  challenge : Option ChallengeSpec := none
  telemetry : Option (Seclang.ApiEnum TelemetryMode) := none
  metricsName : Option String := none
  metricsRootID : Option String := none
  targets : PolicyTargets := {}
  parentRefs : Option PolicyTargets := none
  deriving DecidableEq

def WAF.effectivePolicyTargets (waf : WAF) : PolicyTargets :=
  if waf.targets.targetRef ≠ none ∨ waf.targets.targetRefs ≠ [] then waf.targets
  else waf.parentRefs.getD waf.targets

def challengeEnabled : Option ChallengeSpec → Bool
  | none => false
  | some ch => ch.enabled.getD true

/-- The WAF asks for managed telemetry. -/
def WAF.telemetryManaged (waf : WAF) : Bool := waf.telemetry = some (.known .managed)

/-! ## `BuildFromWAF` -/

/-- `BuildOptions`; a module without a URL or a digest has an empty one. -/
structure BuildOptions where
  defaultECDSHost : String := ""
  defaultECDSPort : ℕ := 0
  defaultModuleHTTP : ModuleID → String := fun _ => ""
  defaultModuleSHA256 : ModuleID → String := fun _ => ""
  defaultWasmHTTPURL : String := ""
  defaultWasmSHA256 : String := ""
  challengeSecrets : List (String × String) := []
  challengeHMAC : String := ""
  detectedProvider : ProviderType := .text ""
  phraseFiles : List (String × Bytes) := []
  directivesOverride : Option (List String) := none
  defaultOTelHost : String := ""
  defaultOTelPort : ℕ := 0

def extensionName (ns name : String) : String := "kubewaf/" ++ ns ++ "/" ++ name

def challengeExtensionName (ns name : String) : String :=
  "kubewaf/" ++ ns ++ "/" ++ name ++ "/challenge"

def firstNonEmpty (a b : String) : String := if a ≠ "" then a else b

/-- `strconv.ParseUint(s, 10, 32)` -/
def parseUint32 (s : List Char) : Option ℕ :=
  if s ≠ [] ∧ s.all Char.isDigit then
    let n := s.foldl (fun n c => n * 10 + (c.toNat - '0'.toNat)) 0
    if n < 2 ^ 32 then some n else none
  else none

/-- `strings.LastIndex(s, ":")`, as the parts in front of the colon and behind it. -/
def cutLastColon (s : List Char) : Option (List Char × List Char) :=
  match s.reverse.span (· ≠ ':') with
  | (_, []) => none
  | (after, _ :: before) => some (before.reverse, after.reverse)

/-- `ParseHostPort(service, defaultPort)`; `none` is the error. -/
def parseHostPort (service : String) (defaultPort : ℕ) : Option (String × ℕ) :=
  let service := Go.trimFunc Go.isSpace service.toList
  if service = [] then none
  else
    let service := Go.trimPrefix (Go.trimPrefix service "https://".toList) "http://".toList
    match cutLastColon service with
    | none | some ([], _) => some (String.ofList service, defaultPort)
    | some (host, port) =>
      match parseUint32 port with
      | none => some (String.ofList service, defaultPort)
      | some port => some (String.ofList host, port)

/-- The provider of `resolveProvider`. -/
def resolveProviderType (waf : WAF) (opts : BuildOptions) : ProviderType :=
  let detected : ProviderType :=
    if opts.detectedProvider ≠ .text "" ∧ opts.detectedProvider ≠ .known .auto then
      opts.detectedProvider
    else .known .envoyGateway
  match waf.provider with
  | none => detected
  | some p => if p.type = .known .auto ∨ p.type = .text "" then detected else p.type

lemma resolveProviderType_ne (waf : WAF) (opts : BuildOptions) :
    resolveProviderType waf opts ≠ .known .auto ∧ resolveProviderType waf opts ≠ .text "" := by
  have hdetected : ∀ d : ProviderType,
      (if d ≠ .text "" ∧ d ≠ .known .auto then d else .known .envoyGateway) ≠ .known .auto ∧
      (if d ≠ .text "" ∧ d ≠ .known .auto then d else .known .envoyGateway) ≠ .text "" := by
    intro d
    split_ifs with hd
    · exact ⟨hd.2, hd.1⟩
    · exact ⟨by decide, by decide⟩
  rw [resolveProviderType]
  cases waf.provider with
  | none => exact hdetected _
  | some p =>
    by_cases htype : p.type = .known .auto ∨ p.type = .text ""
    · simp only [if_pos htype]
      exact hdetected _
    · simp only [if_neg htype]
      exact not_or.mp htype

/-- The cluster of `resolveProvider`. -/
def resolveECDSCluster (waf : WAF) : String :=
  match waf.provider with
  | none => defaultECDSCluster
  | some p => if p.ecdsCluster ≠ "" then p.ecdsCluster else defaultECDSCluster

/-- The host and the port of `resolveProvider`. -/
def resolveECDSService (waf : WAF) (opts : BuildOptions) : String × ℕ :=
  let port := if opts.defaultECDSPort = 0 then 18001 else opts.defaultECDSPort
  match waf.provider with
  | none => (opts.defaultECDSHost, port)
  | some p =>
    if p.ecdsService = "" then (opts.defaultECDSHost, port)
    else (parseHostPort p.ecdsService port).getD (opts.defaultECDSHost, port)

/-- The workload selector of `resolveProvider`. -/
def resolveIstioSelector (waf : WAF) : List (String × String) :=
  match waf.provider.bind (·.istio) with
  | none => [("istio", "ingressgateway")]
  | some i => if i.workloadSelector ≠ [] then i.workloadSelector else [("istio", "ingressgateway")]

/-- The context of `resolveProvider`. -/
def resolveIstioContext (waf : WAF) : String :=
  match waf.provider.bind (·.istio) with
  | none => "GATEWAY"
  | some i => if i.context ≠ "" then i.context else "GATEWAY"

/-- The HMAC key of `buildChallengeFilter`: of the options, of the spec, or of the reference. -/
def challengeSecret (ns : String) (ch : ChallengeSpec) (opts : BuildOptions) : String :=
  let secret := firstNonEmpty opts.challengeHMAC ch.secret
  match ch.secretRef with
  | none => secret
  | some ref =>
    if secret = "" then
      (opts.challengeSecrets.lookup (ns ++ "/" ++ ref.name ++ "/" ++ ref.key)).getD ""
    else secret

def buildChallengeFilter (waf : WAF) (opts : BuildOptions) : Except String PortableFilter :=
  match waf.challenge with
  | none => .error "challenge is nil"
  | some ch =>
    let secret := challengeSecret waf.ns ch opts
    let httpURL := opts.defaultModuleHTTP .challenge
    let sha := opts.defaultModuleSHA256 .challenge
    if secret ≠ "" ∧ secret.utf8ByteSize < 32 then
      .error ("challenge HMAC secret must be at least 32 bytes (got "
        ++ toString secret.utf8ByteSize ++ ")")
    else if httpURL = "" then
      .error ("challenge wasm HTTP URL is not configured; "
        ++ "ensure challenge-proxy-wasm is loaded on the operator")
    else if Go.trimSpace sha = "" then
      .error ("challenge wasm SHA-256 is not configured (url " ++ httpURL
        ++ "); ensure the module is loaded on the operator")
    else
      .ok
        { extensionName := challengeExtensionName waf.ns waf.name
          role := .challenge
          moduleID := some .challenge
          wasmName := "kubewaf.challenge"
          httpURL := httpURL
          sha256 := sha
          pluginJSON := { secret := secret } }

variable (gzip : Gzip)

def buildWAFPluginJSON (directives : List String) (phraseFiles : List (String × Bytes)) :
    PluginJSON :=
  attachDataFiles gzip
    (attachDirectives gzip {} (directives.map fun d => d.toUTF8.toList)) phraseFiles

/-- The directives that `BuildFromWAF` publishes. -/
def directivesToBuild (waf : WAF) (rules : List String) (opts : BuildOptions) : List String :=
  opts.directivesOverride.getD (buildDirectives waf.directives rules)

/-- The filter of the engine. -/
def engineFilter (waf : WAF) (rules : List String) (opts : BuildOptions) : PortableFilter where
  extensionName := extensionName waf.ns waf.name
  role := .waf
  moduleID := some .modSecurity
  wasmName :=
    match waf.metricsName with
    | none => "kubewaf.modsecurity"
    | some name => if name ≠ "" then name else "kubewaf.modsecurity"
  rootID := waf.metricsRootID.getD ""
  httpURL := firstNonEmpty (opts.defaultModuleHTTP .modSecurity) opts.defaultWasmHTTPURL
  sha256 := firstNonEmpty (opts.defaultModuleSHA256 .modSecurity) opts.defaultWasmSHA256
  pluginJSON := buildWAFPluginJSON gzip (directivesToBuild waf rules opts) opts.phraseFiles

/-- The challenge filter where the WAF has one. -/
def challengeFilters (waf : WAF) (opts : BuildOptions) : Except String (List PortableFilter) :=
  if challengeEnabled waf.challenge then (buildChallengeFilter waf opts).map ([·]) else .ok []

/-- The configuration of a WAF for the filters ahead of the engine. -/
def portableConfig (waf : WAF) (rules : List String) (opts : BuildOptions)
    (challenge : List PortableFilter) : PortableConfig :=
  let engine := engineFilter gzip waf rules opts
  { extensionName := extensionName waf.ns waf.name
    ns := waf.ns
    name := waf.name
    provider := resolveProviderType waf opts
    filters := challenge ++ [engine]
    wasmName := engine.wasmName
    rootID := engine.rootID
    httpURL := engine.httpURL
    sha256 := engine.sha256
    pluginJSON := engine.pluginJSON
    directives := directivesToBuild waf rules opts
    ecdsCluster := resolveECDSCluster waf
    ecdsHost := (resolveECDSService waf opts).1
    ecdsPort := (resolveECDSService waf opts).2
    otelHost := opts.defaultOTelHost
    otelPort := if opts.defaultOTelPort = 0 then defaultOTelPort else opts.defaultOTelPort
    telemetryManaged := waf.telemetryManaged
    policyTargets := waf.effectivePolicyTargets
    istioWorkloadSelector := resolveIstioSelector waf
    istioContext := resolveIstioContext waf }

def buildFromWAF (waf : WAF) (rules : List String) (opts : BuildOptions) :
    Except String PortableConfig :=
  let engine := engineFilter gzip waf rules opts
  if engine.httpURL = "" then
    .error ("wasm HTTP URL is not configured for ModSecurity; "
      ++ "ensure the operator loaded /wasm/modsecurity-proxy-wasm.wasm")
  else if Go.trimSpace engine.sha256 = "" then
    .error ("wasm SHA-256 is not configured for ModSecurity (url " ++ engine.httpURL
      ++ "); ensure the operator loaded the module")
  else (challengeFilters waf opts).map (portableConfig gzip waf rules opts)

/-! ## `Build` -/

/-- What the calls of `Build` that read the cluster return. -/
structure ClusterReads where
  /-- `Resolve` or `AddUpdateReconcile`: the errors of the references, where it does not fail. -/
  references : Except String (List String)
  /-- `GetSecRule` of the resolved objects. -/
  rules : Except String (List String)
  /-- The lists that the resolved RuleSets refer to. -/
  ruleSetLists : List RuleSetLists := []
  /-- The value of `ResolveChallengeHMAC`. -/
  challengeHMAC : Except String String
  /-- The provider of `DiscoverProvider`. -/
  discovered : Except String ProviderType
  /-- The namespaces with their lists. -/
  namespaces : String → DataFiles.Namespace

def needsProviderDiscovery (waf : WAF) : Bool :=
  match waf.provider with
  | none => true
  | some p => p.type = .text "" ∨ p.type = .known .auto

/-- `pipeline.Result`, with what publishing reads. -/
structure BuildResult where
  portable : PortableConfig
  referenceErrors : List String

/-- The error for references that do not resolve. -/
def referenceErrorText (refErrs : List String) : String :=
  toString refErrs.length ++ " reference error(s): [" ++ " ".intercalate refErrs ++ "]"

section Build

-- the stock CRS pack and the hash, as the resolution of the data files takes them
variable (crs : CrsData) (sha256Hex : Bytes → String)

/-- The options with the key of the challenge. -/
def withChallenge (waf : WAF) (reads : ClusterReads) (opts : BuildOptions) :
    Except String BuildOptions :=
  if challengeEnabled waf.challenge then
    match reads.challengeHMAC with
    | .error e => .error ("challenge hmac: " ++ e)
    | .ok value => .ok { opts with challengeHMAC := value }
  else .ok opts

/-- The options with the provider that was discovered. -/
def withDiscovery (waf : WAF) (reads : ClusterReads) (opts : BuildOptions) :
    Except String BuildOptions :=
  if needsProviderDiscovery waf then
    match reads.discovered with
    | .error e => .error ("provider discovery: " ++ e)
    | .ok provider => .ok { opts with detectedProvider := provider }
  else .ok opts

/-- `DiscoverAndResolvePhraseFiles` on the provisional directives. -/
def phraseFilesOf (waf : WAF) (reads : ClusterReads) (rules : List String) : PhraseFilesResult :=
  DataFiles.discoverAndResolvePhraseFiles sha256Hex crs reads.namespaces
    (some { ns := waf.ns, phraseListPolicy := waf.phraseListPolicy })
    ((buildDirectives waf.directives rules).map String.toList) reads.ruleSetLists

/-- The options with the data files, and with the directives where some of them were dropped. -/
def withPhraseFiles (res : PhraseFilesResult) (opts : BuildOptions) : BuildOptions :=
  { opts with
    phraseFiles :=
      if res.files ≠ [] then res.files.map fun f => (String.ofList f.1, f.2) else opts.phraseFiles
    directivesOverride :=
      if res.droppedBasenames ≠ [] then some (res.directives.map String.ofList)
      else opts.directivesOverride }

/-- The last part of `Build`, for the data files that the directives reference. -/
def buildWithFiles (waf : WAF) (rules : List String) (res : PhraseFilesResult)
    (opts : BuildOptions) : Except String PortableConfig :=
  if res.error.isSome ∧ res.ready = false then .error ("phrase lists: " ++ res.error.getD "")
  else
    (buildFromWAF gzip waf (if res.droppedBasenames ≠ [] then [] else rules)
      (withPhraseFiles res opts)).mapError ("build portable config: " ++ ·)

/-- `Build` behind the check of the references. -/
def buildPortable (waf : WAF) (reads : ClusterReads) (opts : BuildOptions) :
    Except String PortableConfig := do
  let rules ← reads.rules
  let opts ← withChallenge waf reads opts
  let opts ← withDiscovery waf reads opts
  buildWithFiles gzip waf rules (phraseFilesOf crs sha256Hex waf reads rules) opts

def build (waf : WAF) (reads : ClusterReads) (opts : BuildOptions) (requireRefsOK : Bool) :
    Except String BuildResult := do
  let refErrs ← reads.references
  if requireRefsOK = true ∧ refErrs ≠ [] then .error (referenceErrorText refErrs)
  else
    let portable ← buildPortable gzip crs sha256Hex waf reads opts
    return { portable := portable, referenceErrors := refErrs }

/-! ## What is built -/

variable {gzip} {crs} {sha256Hex} {opts' : BuildOptions}

lemma buildFromWAF_eq_ok {waf : WAF} {rules : List String} {opts : BuildOptions}
    {p : PortableConfig} (h : buildFromWAF gzip waf rules opts = .ok p) :
    ∃ challenge, challengeFilters waf opts = .ok challenge ∧
      portableConfig gzip waf rules opts challenge = p := by
  rw [buildFromWAF] at h
  split_ifs at h
  exact map_eq_ok.mp h

/-- What a configuration is built from: the rules, the options as the challenge and the discovery
leave them, and the data files. -/
structure BuiltFrom (gzip : Gzip) (crs : CrsData) (sha256Hex : Bytes → String) (waf : WAF)
    (reads : ClusterReads) (opts : BuildOptions) (p : PortableConfig) where
  rules : List String
  rules_eq : reads.rules = .ok rules
  challenged : BuildOptions
  challenged_eq : withChallenge waf reads opts = .ok challenged
  discovered : BuildOptions
  discovered_eq : withDiscovery waf reads challenged = .ok discovered
  files : PhraseFilesResult
  files_eq : files = phraseFilesOf crs sha256Hex waf reads rules
  files_ok : ¬(files.error.isSome ∧ files.ready = false)
  built : buildFromWAF gzip waf (if files.droppedBasenames ≠ [] then [] else rules)
    (withPhraseFiles files discovered) = .ok p

lemma buildPortable_eq_ok {waf : WAF} {reads : ClusterReads} {opts : BuildOptions}
    {p : PortableConfig} (h : buildPortable gzip crs sha256Hex waf reads opts = .ok p) :
    Nonempty (BuiltFrom gzip crs sha256Hex waf reads opts p) := by
  obtain ⟨rules, hrules, h⟩ := bind_eq_ok.mp h
  obtain ⟨opts₁, hchallenge, h⟩ := bind_eq_ok.mp h
  obtain ⟨opts₂, hdiscovery, h⟩ := bind_eq_ok.mp h
  rw [buildWithFiles] at h
  by_cases hfiles : (phraseFilesOf crs sha256Hex waf reads rules).error.isSome ∧
      (phraseFilesOf crs sha256Hex waf reads rules).ready = false
  · rw [if_pos hfiles] at h
    cases h
  · rw [if_neg hfiles, mapError_eq_ok] at h
    exact ⟨⟨rules, hrules, opts₁, hchallenge, opts₂, hdiscovery, _, rfl, hfiles, h⟩⟩

/-- The provider of the options that `BuildFromWAF` gets. -/
def detectedProvider (waf : WAF) (reads : ClusterReads) (opts : BuildOptions) : ProviderType :=
  match needsProviderDiscovery waf, reads.discovered with
  | true, .ok provider => provider
  | _, _ => opts.detectedProvider

/-- The provider that a WAF is built for. -/
def builtProvider (waf : WAF) (reads : ClusterReads) (opts : BuildOptions) : ProviderType :=
  resolveProviderType waf { opts with detectedProvider := detectedProvider waf reads opts }

lemma exists_withChallenge {waf : WAF} {reads : ClusterReads} {opts : BuildOptions}
    (h : withChallenge waf reads opts = .ok opts') :
    ∃ value, opts' = { opts with challengeHMAC := value } := by
  rw [withChallenge] at h
  split_ifs at h
  · cases hread : reads.challengeHMAC with
    | error e => simp [hread] at h
    | ok value =>
      rw [hread] at h
      exact ⟨value, (Except.ok.inj h).symm⟩
  · exact ⟨opts.challengeHMAC, (Except.ok.inj h).symm⟩

lemma exists_withDiscovery {waf : WAF} {reads : ClusterReads} {opts : BuildOptions}
    (h : withDiscovery waf reads opts = .ok opts') :
    ∃ provider, opts' = { opts with detectedProvider := provider } := by
  rw [withDiscovery] at h
  split_ifs at h
  · cases hread : reads.discovered with
    | error e => simp [hread] at h
    | ok provider =>
      rw [hread] at h
      exact ⟨provider, (Except.ok.inj h).symm⟩
  · exact ⟨opts.detectedProvider, (Except.ok.inj h).symm⟩

lemma withChallenge_detectedProvider {waf : WAF} {reads : ClusterReads} {opts : BuildOptions}
    (h : withChallenge waf reads opts = .ok opts') :
    opts'.detectedProvider = opts.detectedProvider := by
  obtain ⟨value, rfl⟩ := exists_withChallenge h
  rfl

lemma withDiscovery_detectedProvider {waf : WAF} {reads : ClusterReads} {opts : BuildOptions}
    (h : withDiscovery waf reads opts = .ok opts') :
    opts'.detectedProvider = detectedProvider waf reads opts := by
  rw [withDiscovery] at h
  by_cases hneeds : needsProviderDiscovery waf
  · rw [if_pos hneeds] at h
    cases hread : reads.discovered with
    | error e => simp [hread] at h
    | ok provider =>
      rw [hread] at h
      rw [← Except.ok.inj h, detectedProvider, hneeds, hread]
  · rw [if_neg hneeds] at h
    rw [← Except.ok.inj h, detectedProvider, Bool.eq_false_iff.mpr hneeds]

variable {waf : WAF} {reads : ClusterReads} {opts : BuildOptions} {p : PortableConfig}

lemma BuiltFrom.provider (b : BuiltFrom gzip crs sha256Hex waf reads opts p) :
    p.provider = builtProvider waf reads opts := by
  obtain ⟨challenge, _, hp⟩ := buildFromWAF_eq_ok b.built
  have hdetected : b.discovered.detectedProvider = detectedProvider waf reads opts := by
    rw [withDiscovery_detectedProvider b.discovered_eq, detectedProvider, detectedProvider,
      withChallenge_detectedProvider b.challenged_eq]
  rw [← hp, builtProvider, ← hdetected]
  rfl

lemma BuiltFrom.ns_eq (b : BuiltFrom gzip crs sha256Hex waf reads opts p) : p.ns = waf.ns := by
  obtain ⟨challenge, _, hp⟩ := buildFromWAF_eq_ok b.built
  rw [← hp]
  rfl

lemma BuiltFrom.name_eq (b : BuiltFrom gzip crs sha256Hex waf reads opts p) :
    p.name = waf.name := by
  obtain ⟨challenge, _, hp⟩ := buildFromWAF_eq_ok b.built
  rw [← hp]
  rfl

lemma build_eq_ok_iff {waf : WAF} {reads : ClusterReads} {opts : BuildOptions}
    {requireRefsOK : Bool} {res : BuildResult} :
    build gzip crs sha256Hex waf reads opts requireRefsOK = .ok res ↔
      reads.references = .ok res.referenceErrors ∧
      (requireRefsOK = true → res.referenceErrors = []) ∧
      buildPortable gzip crs sha256Hex waf reads opts = .ok res.portable := by
  rw [build, bind_eq_ok]
  constructor
  · rintro ⟨refErrs, hrefs, h⟩
    by_cases hguard : requireRefsOK = true ∧ refErrs ≠ []
    · rw [if_pos hguard] at h
      cases h
    · rw [if_neg hguard] at h
      obtain ⟨portable, hportable, h⟩ := bind_eq_ok.mp h
      obtain rfl := pure_eq_ok.mp h
      exact ⟨hrefs, fun hreq => by_contra fun hne => hguard ⟨hreq, hne⟩, hportable⟩
  · rintro ⟨hrefs, hreq, hportable⟩
    refine ⟨_, hrefs, ?_⟩
    rw [if_neg fun hguard => hguard.2 (hreq hguard.1), bind_eq_ok]
    exact ⟨_, hportable, rfl⟩

end Build

end KubeWaf.Dataplane
