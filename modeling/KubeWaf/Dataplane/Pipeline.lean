import KubeWaf.Dataplane.Ecds

/-!
# Publishing a WAF on a replica

`Publish`, `BuildAndPublish` and `DropLocal` of `internal/dataplane/pipeline/pipeline.go`, and the
reconciler of `internal/dataplane/sync/controller.go`, which keeps the stores of a replica in step
with the WAFs.
-/

namespace KubeWaf.Dataplane

open Lib
open DataFiles (Bytes CrsData)

/-- `pipeline.Publishers` -/
structure Publishers where
  ecds : Option EcdsServer := none
  egExtension : Option ExtensionServer := none

/-- `pipeline.Options`. What the cluster answers differs with `EnsureChallengeSecret` and
`LockRefs`; those answers are in the `ClusterReads`. -/
structure Options where
  buildOpts : BuildOptions := {}
  skipECDS : Bool := false
  requireRefsOK : Bool := false

section Publish

variable (urlScheme : String → Except String String)

/-- The first half of `Publish`, up to the error of the ECDS server. -/
def publishECDS (p : PortableConfig) (pubs : Publishers) (skipECDS : Bool) :
    Publishers × Option String :=
  if skipECDS then (pubs, none)
  else
    match pubs.ecds with
    | none => (pubs, some "ECDSNotConfigured: ECDS server is not configured on the reconciler")
    | some ecds =>
      match ecds.upsert urlScheme p with
      | (ecds, some e) => ({ pubs with ecds := some ecds }, some ("ECDSUpsertFailed: " ++ e))
      | (ecds, none) => ({ pubs with ecds := some ecds }, none)

/-- `Publish(p, pubs, opts)`, with the error. -/
def publish (p : PortableConfig) (pubs : Publishers) (opts : Options) :
    Publishers × Option String :=
  match publishECDS urlScheme p pubs opts.skipECDS with
  | (pubs, some e) => (pubs, some e)
  | (pubs, none) => ({ pubs with egExtension := pubs.egExtension.map (·.upsert p) }, none)

/-- What `Build` reads besides the WAF, the cluster and the options. -/
structure Operator where
  gzip : Gzip
  crs : CrsData
  sha256Hex : Bytes → String
  urlScheme : String → Except String String

variable (op : Operator)

/-- `Build` on this operator. -/
def Operator.build (waf : WAF) (reads : ClusterReads) (opts : Options) :
    Except String BuildResult :=
  Dataplane.build op.gzip op.crs op.sha256Hex waf reads opts.buildOpts opts.requireRefsOK

/-- `BuildAndPublish(ctx, c, waf, pubs, opts)`, with the error. -/
def Operator.buildAndPublish (waf : WAF) (reads : ClusterReads) (pubs : Publishers)
    (opts : Options) : Publishers × Option String :=
  match op.build waf reads opts with
  | .error e => (pubs, some e)
  | .ok res =>
    if res.referenceErrors ≠ [] then (pubs, some (referenceErrorText res.referenceErrors))
    else publish op.urlScheme res.portable pubs opts

lemma publishECDS_egExtension (p : PortableConfig) (pubs : Publishers) (skipECDS : Bool) :
    (publishECDS urlScheme p pubs skipECDS).1.egExtension = pubs.egExtension := by
  rw [publishECDS]
  split
  · rfl
  · split
    · rfl
    · split
      · rfl
      · rfl

lemma publish_egExtension {p : PortableConfig} {pubs pubs' : Publishers} {opts : Options}
    (h : publish urlScheme p pubs opts = (pubs', none)) :
    pubs'.egExtension = pubs.egExtension.map (·.upsert p) := by
  have heg := publishECDS_egExtension urlScheme p pubs opts.skipECDS
  rw [publish] at h
  cases hecds : publishECDS urlScheme p pubs opts.skipECDS with
  | mk pubs₁ err =>
    rw [hecds] at h heg
    cases err with
    | some e => cases congrArg Prod.snd h
    | none =>
      obtain ⟨rfl, _⟩ := Prod.mk.inj h
      exact congrArg (Option.map (·.upsert p)) heg

lemma buildAndPublish_eq_none {op : Operator} {waf : WAF} {reads : ClusterReads}
    {pubs pubs' : Publishers} {opts : Options}
    (h : op.buildAndPublish waf reads pubs opts = (pubs', none)) :
    ∃ res, op.build waf reads opts = .ok res ∧ res.referenceErrors = [] ∧
      publish op.urlScheme res.portable pubs opts = (pubs', none) := by
  rw [Operator.buildAndPublish] at h
  cases hbuild : op.build waf reads opts with
  | error e =>
    rw [hbuild] at h
    cases congrArg Prod.snd h
  | ok res =>
    rw [hbuild] at h
    by_cases hrefs : res.referenceErrors = []
    · simp only [hrefs, ne_eq, not_true_eq_false, if_false] at h
      exact ⟨res, rfl, hrefs, h⟩
    · simp only [ne_eq, hrefs, not_false_eq_true, if_true] at h
      cases congrArg Prod.snd h

end Publish

def dropLocal (ns name : String) (pubs : Publishers) : Publishers where
  ecds := pubs.ecds.map (·.delete (extensionName ns name))
  egExtension := pubs.egExtension.map (·.delete ns name)

/-- The answer of the client to a `Get`. -/
inductive GetAnswer (α : Type) where
  | found (obj : α)
  | notFound
  | failed (err : String)

/-- The options of the sync reconciler. -/
def syncOptions (buildOpts : BuildOptions) : Options :=
  { buildOpts := buildOpts, requireRefsOK := true }

/-- `Reconcile` of the sync reconciler, for the WAF `ns/name`. -/
def Operator.syncReconcile (op : Operator) (buildOpts : BuildOptions) (ns name : String)
    (answer : GetAnswer WAF) (reads : ClusterReads) (pubs : Publishers) :
    Publishers × Option String :=
  match answer with
  | .failed e => (pubs, some e)
  | .notFound => (dropLocal ns name pubs, none)
  | .found waf =>
    if waf.deleting then (dropLocal waf.ns waf.name pubs, none)
    else op.buildAndPublish waf reads pubs (syncOptions buildOpts)

/-! ## A plain environment -/

/-- An operator whose environment answers plainly. -/
def plainOperator : Operator where
  gzip := ⟨some, some⟩
  crs := ⟨fun _ => false, fun _ => .error "no such file"⟩
  sha256Hex := fun _ => ""
  urlScheme := fun _ => .ok "http"

def plainReads : ClusterReads where
  references := .ok []
  rules := .ok []
  challengeHMAC := .error "no challenge"
  discovered := .ok (.known .envoyGateway)
  namespaces := fun ns => { name := ns }

def plainOptions : BuildOptions where
  defaultECDSHost := "kubewaf-ecds"
  defaultWasmHTTPURL := "http://kubewaf/wasm/modsecurity-proxy-wasm.wasm"
  defaultWasmSHA256 := "5d41402a"

end KubeWaf.Dataplane
