import KubeWaf.Dataplane.ExtensionServer

/-!
# The slots of a WAF

`internal/dataplane/slot`: a WAF is attached by an object of its provider, an `EnvoyFilter` for
Istio, a `CiliumEnvoyConfig` for Cilium and an entry of the extension server for Envoy Gateway.
`EnsureDesired` installs the one of the desired provider and deletes those of the others. Istio
has besides one `EnvoyFilter` with the access log for all WAFs of a namespace.

The objects are those of a cluster whose API answers. Of a `CiliumEnvoyConfig` the HTTP filters
are here, not the services and clusters.
-/

namespace KubeWaf.Dataplane

open Lib

variable {wafName ns : String} {order : List Adapter} {β : Type} (part : SlotCluster → β)

/-! ## Objects -/

/-- The spec of an `EnvoyFilter` that the operator writes. -/
inductive EnvoyFilterContent where
  | slot (spec : EnvoyFilterSpec)
  /-- `buildAccessLogSpec()` -/
  | accessLog
  deriving DecidableEq

/-- An object with the owner and the labels that the operator sets. -/
structure SlotObject (γ : Type) where
  owner : Option String := none
  /-- The label `kubewaf.io/waf`. -/
  waf : Option String := none
  /-- The label `kubewaf.io/component`. -/
  component : Option String := none
  spec : Option γ := none
  deriving DecidableEq

/-- Namespace and name of an object. -/
abbrev ObjectKey := String × String

/-- The objects that the slots consist of, and the WAFs that a `List` returns. -/
structure SlotCluster where
  envoyFilters : GoMap ObjectKey (SlotObject EnvoyFilterContent) := ∅
  ciliumEnvoyConfigs : GoMap ObjectKey (SlotObject (List HttpFilter)) := ∅
  eg : Option ExtensionServer := none
  wafs : List WAF := []

/-- `controllerutil.CreateOrUpdate`: the object that is there, or an empty one, is mutated. -/
def createOrUpdate {γ : Type} (m : GoMap ObjectKey (SlotObject γ)) (key : ObjectKey)
    (mutate : SlotObject γ → SlotObject γ) : GoMap ObjectKey (SlotObject γ) :=
  m.insert key (mutate ((m.lookup key).getD {}))

/-- `ResourceName(wafName)`, of both packages. -/
def resourceName (wafName : String) : String := "kubewaf-" ++ wafName

def accessLogResourceName : String := "kubewaf-otel-access-log"

/-! ## Istio -/

def wafNeedsIstioAccessLog (w : WAF) : Bool :=
  !w.deleting && w.telemetryManaged
    && match w.provider with
      | none => true
      | some p => p.type = .text "" || p.type = .known .auto || p.type = .known .istio

def deleteAccessLogEnvoyFilter (c : SlotCluster) (ns : String) : SlotCluster :=
  { c with envoyFilters := c.envoyFilters.erase (ns, accessLogResourceName) }

/-- The loop over the WAFs of the namespace finds another one that needs the access log. -/
def SlotCluster.othersNeedAccessLog (c : SlotCluster) (ns exceptWAF : String) : Bool :=
  c.wafs.any fun w => w.ns = ns && w.name ≠ exceptWAF && wafNeedsIstioAccessLog w

def maybeDeleteOTelAccessLogEnvoyFilter (c : SlotCluster) (ns exceptWAF : String) : SlotCluster :=
  if c.othersNeedAccessLog ns exceptWAF then c else deleteAccessLogEnvoyFilter c ns

def ensureOTelAccessLogEnvoyFilter (c : SlotCluster) (p : PortableConfig) : SlotCluster :=
  if p.telemetryManaged = false then c
  else
    { c with
      envoyFilters := createOrUpdate c.envoyFilters (p.ns, accessLogResourceName) fun ef =>
        { ef with component := some "otel-access-log", spec := some .accessLog } }

def deleteEnvoyFilter (c : SlotCluster) (ns wafName : String) : SlotCluster :=
  maybeDeleteOTelAccessLogEnvoyFilter
    { c with envoyFilters := c.envoyFilters.erase (ns, resourceName wafName) } ns wafName

/-! ## Cilium -/

def ensureCiliumEnvoyConfig (c : SlotCluster) (owner : String) (p : PortableConfig) :
    SlotCluster :=
  { c with
    ciliumEnvoyConfigs := createOrUpdate c.ciliumEnvoyConfigs (p.ns, resourceName p.name) fun cec =>
      { cec with owner := some owner, waf := some p.name, spec := some (httpFilters p) } }

def deleteCiliumEnvoyConfig (c : SlotCluster) (ns wafName : String) : SlotCluster :=
  { c with ciliumEnvoyConfigs := c.ciliumEnvoyConfigs.erase (ns, resourceName wafName) }

/-! ## The registry -/

/-- The adapters of `NewRegistry`, by the provider they are for. -/
inductive Adapter where
  | istio
  | cilium
  | envoyGateway
  deriving DecidableEq

def Adapter.type : Adapter → ProviderType
  | .istio => .known .istio
  | .cilium => .known .cilium
  | .envoyGateway => .known .envoyGateway

def Adapter.kind : Adapter → String
  | .istio => "EnvoyFilter"
  | .cilium => "CiliumEnvoyConfig"
  | .envoyGateway => "ExtensionServer"

/-- `Registry.Get(t)` -/
def getAdapter : ProviderType → Except String Adapter
  | .known .auto => .ok .envoyGateway
  | .known .envoyGateway => .ok .envoyGateway
  | .known .istio => .ok .istio
  | .known .cilium => .ok .cilium
  | .text t => if t = "" then .ok .envoyGateway else .error ("unsupported provider " ++ Go.quoted t)

lemma of_getAdapter_envoyGateway {t : ProviderType} (h : getAdapter t = .ok .envoyGateway) :
    t = .known .envoyGateway ∨ t = .known .auto ∨ t = .text "" := by
  cases t with
  | known provider =>
    cases provider with
    | auto => exact .inr (.inl rfl)
    | envoyGateway => exact .inl rfl
    | istio => cases h
    | cilium => cases h
  | text t =>
    by_cases ht : t = ""
    · exact .inr (.inr (congrArg _ ht))
    · rw [getAdapter, if_neg ht] at h
      cases h

/-- `Delete(ctx, c, namespace, wafName)` of an adapter. -/
def Adapter.delete (c : SlotCluster) (ns wafName : String) : Adapter → SlotCluster
  | .istio => deleteEnvoyFilter c ns wafName
  | .cilium => deleteCiliumEnvoyConfig c ns wafName
  | .envoyGateway => { c with eg := c.eg.map (·.delete ns wafName) }

section Ensure

-- `ecds.WasmCodeClusterHostPort`: host and port of a URL, where `net/url` finds them
variable (wasmCodeClusterHostPort : String → Option (String × ℕ))

def ensureEnvoyFilter (c : SlotCluster) (owner : String) (p : PortableConfig) : SlotCluster :=
  let c :=
    { c with
      envoyFilters := createOrUpdate c.envoyFilters (p.ns, resourceName p.name) fun ef =>
        { ef with
          owner := some owner
          waf := some p.name
          spec := some (.slot (buildSpec wasmCodeClusterHostPort p)) } }
  if p.telemetryManaged then ensureOTelAccessLogEnvoyFilter c p
  else maybeDeleteOTelAccessLogEnvoyFilter c p.ns p.name

/-- `Ensure(ctx, c, owner, p)` of an adapter. -/
def Adapter.ensure (c : SlotCluster) (owner : String) (p : PortableConfig) :
    Adapter → SlotCluster
  | .istio => ensureEnvoyFilter wasmCodeClusterHostPort c owner p
  | .cilium => ensureCiliumEnvoyConfig c owner p
  | .envoyGateway => { c with eg := c.eg.map (·.upsert p) }

/-- The name that `Ensure` returns. -/
def Adapter.slotName (p : PortableConfig) : Adapter → String
  | .istio | .cilium => resourceName p.name
  | .envoyGateway => p.extensionName

/-- `DeleteOthers(ctx, c, namespace, wafName, keep)`; `order` is the order in which the loop
visits the adapters. -/
def deleteOthers (order : List Adapter) (c : SlotCluster) (ns wafName : String) (keep : Adapter) :
    SlotCluster :=
  (order.filter (· ≠ keep)).foldl (fun c a => a.delete c ns wafName) c

def deleteAll (order : List Adapter) (c : SlotCluster) (ns wafName : String) : SlotCluster :=
  order.foldl (fun c a => a.delete c ns wafName) c

/-- `EnsureDesired(ctx, c, owner, p)`: the cluster behind it, and the kind and the name of the
slot. -/
def ensureDesired (order : List Adapter) (c : SlotCluster) (owner : String) (p : PortableConfig) :
    Except String (SlotCluster × String × String) := do
  let desired ← getAdapter p.provider
  let c := deleteOthers order c p.ns p.name desired
  return (desired.ensure wasmCodeClusterHostPort c owner p, desired.kind, desired.slotName p)

end Ensure

/-- The adapters that a registry has. -/
def Adapter.all : List Adapter := [.istio, .cilium, .envoyGateway]

/-! ## Deleting with several adapters -/

lemma foldl_delete_part (f : β → β) (own : Adapter)
    (hown : ∀ c, part (own.delete c ns wafName) = f (part c))
    (hother : ∀ a ≠ own, ∀ c, part (a.delete c ns wafName) = part c) {adapters : List Adapter}
    (hnodup : adapters.Nodup) (c : SlotCluster) :
    part (adapters.foldl (fun c a => a.delete c ns wafName) c) =
      if own ∈ adapters then f (part c) else part c := by
  induction adapters generalizing c with
  | nil => rfl
  | cons a adapters ih =>
    obtain ⟨hhead, htail⟩ := List.nodup_cons.mp hnodup
    rw [List.foldl_cons, ih htail]
    by_cases ha : a = own
    · subst ha
      rw [if_neg hhead, if_pos List.mem_cons_self, hown]
    · rw [hother a ha]
      simp [Ne.symm ha]

lemma nodup_of_perm_all (h : order.Perm Adapter.all) : order.Nodup :=
  h.nodup_iff.mpr (by decide)

lemma deleteAll_part (f : β → β) (own : Adapter)
    (hown : ∀ c, part (own.delete c ns wafName) = f (part c))
    (hother : ∀ a ≠ own, ∀ c, part (a.delete c ns wafName) = part c)
    (horder : order.Perm Adapter.all) (c : SlotCluster) :
    part (deleteAll order c ns wafName) = f (part c) := by
  rw [deleteAll, foldl_delete_part part f own hown hother (nodup_of_perm_all horder), if_pos]
  rw [horder.mem_iff]
  cases own <;> decide

lemma deleteOthers_part (f : β → β) (own : Adapter)
    (hown : ∀ c, part (own.delete c ns wafName) = f (part c))
    (hother : ∀ a ≠ own, ∀ c, part (a.delete c ns wafName) = part c)
    (horder : order.Perm Adapter.all) (c : SlotCluster) (keep : Adapter) :
    part (deleteOthers order c ns wafName keep) = if keep = own then part c else f (part c) := by
  have hmem : own ∈ order := by
    rw [horder.mem_iff]
    cases own <;> decide
  rw [deleteOthers, foldl_delete_part part f own hown hother ((nodup_of_perm_all horder).filter _)]
  by_cases hkeep : keep = own
  · rw [if_pos hkeep, if_neg]
    simp [hkeep]
  · rw [if_neg hkeep, if_pos]
    simp [hmem, Ne.symm hkeep]

/-! ## The extension server as a slot -/

lemma maybeDelete_eg (c : SlotCluster) (ns exceptWAF : String) :
    (maybeDeleteOTelAccessLogEnvoyFilter c ns exceptWAF).eg = c.eg := by
  rw [maybeDeleteOTelAccessLogEnvoyFilter]
  split
  · rfl
  · rfl

lemma ensureEnvoyFilter_eg (hostPort : String → Option (String × ℕ)) (c : SlotCluster)
    (owner : String) (p : PortableConfig) :
    (ensureEnvoyFilter hostPort c owner p).eg = c.eg := by
  rw [ensureEnvoyFilter]
  by_cases hmanaged : p.telemetryManaged
  · simp [hmanaged, ensureOTelAccessLogEnvoyFilter]
  · simp [hmanaged, maybeDelete_eg]

lemma delete_eg_of_ne {a : Adapter} (ha : a ≠ .envoyGateway) (c : SlotCluster)
    (ns wafName : String) : (a.delete c ns wafName).eg = c.eg := by
  cases a with
  | istio => exact maybeDelete_eg _ _ _
  | cilium => rfl
  | envoyGateway => exact absurd rfl ha

lemma deleteAll_eg (h : order.Perm Adapter.all) (c : SlotCluster) (ns wafName : String) :
    (deleteAll order c ns wafName).eg = c.eg.map (·.delete ns wafName) :=
  deleteAll_part (·.eg) (Option.map (·.delete ns wafName)) .envoyGateway (fun _ => rfl)
    (fun _ ha c => delete_eg_of_ne ha c ns wafName) h c

lemma deleteOthers_eg (h : order.Perm Adapter.all) (c : SlotCluster) (ns wafName : String)
    (keep : Adapter) :
    (deleteOthers order c ns wafName keep).eg =
      if keep = .envoyGateway then c.eg else c.eg.map (·.delete ns wafName) :=
  deleteOthers_part (·.eg) (Option.map (·.delete ns wafName)) .envoyGateway (fun _ => rfl)
    (fun _ ha c => delete_eg_of_ne ha c ns wafName) h c keep

lemma ensureDesired_eg {hostPort : String → Option (String × ℕ)}
    (horder : order.Perm Adapter.all) {c c' : SlotCluster} {owner : String} {p : PortableConfig}
    {slot : String × String} (h : ensureDesired hostPort order c owner p = .ok (c', slot)) :
    ∃ a, getAdapter p.provider = .ok a ∧
      c'.eg = if a = .envoyGateway then c.eg.map (·.upsert p)
        else c.eg.map (·.delete p.ns p.name) := by
  obtain ⟨a, ha, h⟩ := bind_eq_ok.mp h
  have hc' := congrArg (fun r => r.1.eg) (pure_eq_ok.mp h)
  refine ⟨a, ha, ?_⟩
  rw [← hc']
  cases a with
  | istio =>
    simp [Adapter.ensure, ensureEnvoyFilter_eg, deleteOthers_eg horder]
  | cilium =>
    simp [Adapter.ensure, ensureCiliumEnvoyConfig, deleteOthers_eg horder]
  | envoyGateway =>
    simp [Adapter.ensure, deleteOthers_eg horder]

end KubeWaf.Dataplane
