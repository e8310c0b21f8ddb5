import KubeWaf.Dataplane.Replicas

/-!
# Who owns a slot

Along a history of calls the slots of a WAF are to be those of its last desired provider, and no
call is to touch the slots of another WAF, nor the `EnvoyFilter` with the access log while another
WAF needs it. The objects of all WAFs of a namespace and the access log share one space of names:
the slot of a WAF called `otel-access-log` is the access log. Without a WAF of that name all
histories are safe, and with it they are not (`slots_safe_iff`).
-/

namespace KubeWaf.Dataplane

open Lib List

variable {name name' ns : String} {order : List Adapter} {c c' : SlotCluster} {p : PortableConfig}
  {slot : String × String} {a : Adapter}

/-! ## Slots of one WAF -/

/-- What the cluster has for a WAF under the names of its slots. -/
structure WafSlots where
  istio : Option (SlotObject EnvoyFilterContent) := none
  cilium : Option (SlotObject (List HttpFilter)) := none
  gateway : Option PortableConfig := none
  deriving DecidableEq

def SlotCluster.slots (c : SlotCluster) (ns name : String) : WafSlots where
  istio := c.envoyFilters.lookup (ns, resourceName name)
  cilium := c.ciliumEnvoyConfigs.lookup (ns, resourceName name)
  gateway := c.eg.bind (·.indexed ns name)

/-- An object that is written for a WAF. -/
def slotObject {γ : Type} (name : String) (spec : γ) : SlotObject γ where
  owner := some name
  waf := some name
  spec := some spec

/-- The slots that a WAF is to have: an object of the provider of its configuration, written for
it, and none of another provider. -/
def wantedSlots (hostPort : String → Option (String × ℕ)) : Option PortableConfig → WafSlots
  | none => {}
  | some p =>
    match p.provider with
    | .known .istio => { istio := some (slotObject p.name (.slot (buildSpec hostPort p))) }
    | .known .cilium => { cilium := some (slotObject p.name (httpFilters p)) }
    | _ => { gateway := some p }

/-- The `EnvoyFilter` with the access log. -/
def accessLogObject : SlotObject EnvoyFilterContent where
  component := some "otel-access-log"
  spec := some .accessLog

/-- The name of a WAF whose slot for Istio is the access log. -/
def accessLogWAF : String := "otel-access-log"

lemma resourceName_inj : resourceName name = resourceName name' ↔ name = name' := by
  rw [resourceName, resourceName, ← String.toList_inj, String.toList_append, String.toList_append,
    append_cancel_left_eq, String.toList_inj]

lemma resourceName_ne_accessLog (h : name ≠ accessLogWAF) :
    resourceName name ≠ accessLogResourceName :=
  fun heq => h (resourceName_inj.mp (heq.trans (show _ = resourceName accessLogWAF by decide)))

/-! ## Objects behind an operation -/

lemma lookup_maybeDelete (c : SlotCluster) (ns wafName : String) (k : ObjectKey) :
    (maybeDeleteOTelAccessLogEnvoyFilter c ns wafName).envoyFilters.lookup k =
      if c.othersNeedAccessLog ns wafName = false ∧ k = (ns, accessLogResourceName) then none
      else c.envoyFilters.lookup k := by
  rw [maybeDeleteOTelAccessLogEnvoyFilter]
  cases hneeds : c.othersNeedAccessLog ns wafName with
  | true => simp
  | false => simp [deleteAccessLogEnvoyFilter, GoMap.lookup_erase_eq]

lemma othersNeedAccessLog_with (c : SlotCluster)
    (m : GoMap ObjectKey (SlotObject EnvoyFilterContent)) (ns wafName : String) :
    SlotCluster.othersNeedAccessLog { c with envoyFilters := m } ns wafName =
      c.othersNeedAccessLog ns wafName := rfl

lemma lookup_deleteEnvoyFilter (c : SlotCluster) (ns wafName : String) (k : ObjectKey) :
    (deleteEnvoyFilter c ns wafName).envoyFilters.lookup k =
      if (c.othersNeedAccessLog ns wafName = false ∧ k = (ns, accessLogResourceName)) ∨
          k = (ns, resourceName wafName) then none
      else c.envoyFilters.lookup k := by
  rw [deleteEnvoyFilter, lookup_maybeDelete, othersNeedAccessLog_with, GoMap.lookup_erase_eq, ite_or]

lemma lookup_createOrUpdate {γ : Type} (m : GoMap ObjectKey (SlotObject γ)) (key k : ObjectKey)
    (mutate : SlotObject γ → SlotObject γ) :
    (createOrUpdate m key mutate).lookup k =
      if k = key then some (mutate ((m.lookup key).getD {})) else m.lookup k :=
  GoMap.lookup_insert_eq m k key _

/-- What the adapter of Istio works on: the filters, next to the WAFs that it lists. -/
def SlotCluster.istioPart (c : SlotCluster) :
    GoMap ObjectKey (SlotObject EnvoyFilterContent) × List WAF := (c.envoyFilters, c.wafs)

lemma maybeDelete_istioPart (c : SlotCluster) (ns wafName : String) :
    (maybeDeleteOTelAccessLogEnvoyFilter c ns wafName).istioPart =
      (maybeDeleteOTelAccessLogEnvoyFilter { envoyFilters := c.istioPart.1, wafs := c.istioPart.2 }
        ns wafName).istioPart := by
  have hneeds : SlotCluster.othersNeedAccessLog
      { envoyFilters := c.istioPart.1, wafs := c.istioPart.2 } ns wafName
      = c.othersNeedAccessLog ns wafName := rfl
  rw [maybeDeleteOTelAccessLogEnvoyFilter, maybeDeleteOTelAccessLogEnvoyFilter, hneeds]
  split
  · rfl
  · rfl

lemma delete_istioPart_of_ne (ha : a ≠ .istio) (c : SlotCluster) (ns wafName : String) :
    (a.delete c ns wafName).istioPart = c.istioPart := by
  cases a with
  | istio => exact absurd rfl ha
  | cilium => rfl
  | envoyGateway => rfl

lemma delete_cilium_of_ne (ha : a ≠ .cilium) (c : SlotCluster) (ns wafName : String) :
    (a.delete c ns wafName).ciliumEnvoyConfigs = c.ciliumEnvoyConfigs := by
  cases a with
  | istio =>
    rw [Adapter.delete, deleteEnvoyFilter, maybeDeleteOTelAccessLogEnvoyFilter]
    split
    · rfl
    · rfl
  | cilium => exact absurd rfl ha
  | envoyGateway => rfl

lemma deleteEnvoyFilter_istioPart (c : SlotCluster) (ns wafName : String) :
    (deleteEnvoyFilter c ns wafName).istioPart =
      (deleteEnvoyFilter { envoyFilters := c.istioPart.1, wafs := c.istioPart.2 }
        ns wafName).istioPart :=
  maybeDelete_istioPart _ _ _

section Ensure

variable {hostPort : String → Option (String × ℕ)}

lemma ensureEnvoyFilter_istioPart (c : SlotCluster) (owner : String) (p : PortableConfig) :
    (ensureEnvoyFilter hostPort c owner p).istioPart =
      (ensureEnvoyFilter hostPort { envoyFilters := c.istioPart.1, wafs := c.istioPart.2 }
        owner p).istioPart := by
  rw [ensureEnvoyFilter, ensureEnvoyFilter]
  cases hmanaged : p.telemetryManaged with
  | true =>
    simp only [if_true, ensureOTelAccessLogEnvoyFilter, hmanaged, Bool.true_eq_false, if_false]
    rfl
  | false => exact maybeDelete_istioPart _ _ _

lemma ensureDesired_objects (horder : order.Perm Adapter.all) {owner : String}
    (h : ensureDesired hostPort order c owner p = .ok (c', slot)) :
    ∃ a, getAdapter p.provider = .ok a ∧
      c'.envoyFilters = (if a = .istio then ensureEnvoyFilter hostPort c owner p
        else deleteEnvoyFilter c p.ns p.name).envoyFilters ∧
      c'.ciliumEnvoyConfigs = (if a = .cilium then ensureCiliumEnvoyConfig c owner p
        else deleteCiliumEnvoyConfig c p.ns p.name).ciliumEnvoyConfigs := by
  obtain ⟨a, ha, h⟩ := bind_eq_ok.mp h
  have hc' : a.ensure hostPort (deleteOthers order c p.ns p.name a) owner p = c' :=
    congrArg Prod.fst (pure_eq_ok.mp h)
  have histio := deleteOthers_part SlotCluster.istioPart (fun x => (deleteEnvoyFilter
    { envoyFilters := x.1, wafs := x.2 } p.ns p.name).istioPart) .istio
    (fun c => deleteEnvoyFilter_istioPart c p.ns p.name)
    (fun _ ha c => delete_istioPart_of_ne ha c p.ns p.name) horder c a
  have hcilium := deleteOthers_part (·.ciliumEnvoyConfigs)
    (fun m => m.erase (p.ns, resourceName p.name)) .cilium (fun _ => rfl)
    (fun _ ha c => delete_cilium_of_ne ha c p.ns p.name) horder c a
  rw [← deleteEnvoyFilter_istioPart] at histio
  refine ⟨a, ha, ?_, ?_⟩
  · rw [← hc']
    cases a with
    | istio =>
      rw [if_pos rfl] at histio ⊢
      refine congrArg Prod.fst (?_ : SlotCluster.istioPart _ = SlotCluster.istioPart _)
      rw [Adapter.ensure, ensureEnvoyFilter_istioPart, histio, ← ensureEnvoyFilter_istioPart]
    | cilium => exact congrArg Prod.fst histio
    | envoyGateway => exact congrArg Prod.fst histio
  · rw [← hc']
    cases a with
    | istio =>
      rw [if_neg (by decide)] at hcilium ⊢
      refine Eq.trans ?_ hcilium
      rw [Adapter.ensure, ensureEnvoyFilter]
      cases hmanaged : p.telemetryManaged with
      | true => simp [ensureOTelAccessLogEnvoyFilter, hmanaged]
      | false =>
        simp only [Bool.false_eq_true, if_false, maybeDeleteOTelAccessLogEnvoyFilter]
        split
        · rfl
        · rfl
    | cilium =>
      rw [if_pos rfl] at hcilium ⊢
      simp [Adapter.ensure, ensureCiliumEnvoyConfig, hcilium]
    | envoyGateway =>
      rw [if_neg (by decide)] at hcilium ⊢
      exact hcilium

/-- The access log as `EnsureOTelAccessLogEnvoyFilter` writes it over what is there. -/
def writeAccessLog (ef : Option (SlotObject EnvoyFilterContent)) :
    SlotObject EnvoyFilterContent :=
  { ef.getD {} with component := some "otel-access-log", spec := some .accessLog }

lemma lookup_ensureEnvoyFilter (c : SlotCluster) (owner : String)
    (hname : p.name ≠ accessLogWAF) (k : ObjectKey) :
    (ensureEnvoyFilter hostPort c owner p).envoyFilters.lookup k =
      if k = (p.ns, accessLogResourceName) then
        if p.telemetryManaged then some (writeAccessLog (c.envoyFilters.lookup k))
        else if c.othersNeedAccessLog p.ns p.name then c.envoyFilters.lookup k else none
      else if k = (p.ns, resourceName p.name) then
        some { (c.envoyFilters.lookup k).getD {} with
          owner := some owner
          waf := some p.name
          spec := some (.slot (buildSpec hostPort p)) }
      else c.envoyFilters.lookup k := by
  have hne : (p.ns, accessLogResourceName) ≠ (p.ns, resourceName p.name) :=
    fun heq => resourceName_ne_accessLog hname (congrArg Prod.snd heq).symm
  rw [ensureEnvoyFilter]
  cases hmanaged : p.telemetryManaged with
  | true =>
    simp only [if_true, ensureOTelAccessLogEnvoyFilter, hmanaged, Bool.true_eq_false, if_false,
      lookup_createOrUpdate]
    split_ifs with hk hown
    · rw [hk]
      rfl
    · rw [hown]
    · rfl
  | false =>
    simp only [Bool.false_eq_true, if_false, lookup_maybeDelete, lookup_createOrUpdate,
      othersNeedAccessLog_with]
    by_cases hk : k = (p.ns, accessLogResourceName)
    · cases c.othersNeedAccessLog p.ns p.name <;> simp [hk, hne]
    · simp only [hk, and_false, if_false]
      split_ifs with hown
      · rw [hown]
      · rfl

end Ensure

/-! ## One call -/

/-- What a call for `ns/wafName` may do to the access log of a namespace: nothing, delete it where
no other WAF needs it, or write it. -/
def AccessLogStep (c c' : SlotCluster) (ns wafName : String) : Prop :=
  ∀ ns', c'.envoyFilters.lookup (ns', accessLogResourceName)
      = c.envoyFilters.lookup (ns', accessLogResourceName) ∨
    ns' = ns ∧
      ((c.othersNeedAccessLog ns wafName = false ∧
        c'.envoyFilters.lookup (ns', accessLogResourceName) = none) ∨
      c'.envoyFilters.lookup (ns', accessLogResourceName)
        = some (writeAccessLog (c.envoyFilters.lookup (ns', accessLogResourceName))))

/-- What a call for `ns/name` does: the slots of the other WAFs stay. -/
structure CallSpec (c c' : SlotCluster) (ns name : String) : Prop where
  others : ∀ ns' name', PlainNames ns' name' → name' ≠ accessLogWAF →
    ¬(ns = ns' ∧ name = name') → c'.slots ns' name' = c.slots ns' name'
  accessLog : AccessLogStep c c' ns name

lemma deleteEnvoyFilter_accessLogStep (c : SlotCluster) (ns : String)
    (hname : name ≠ accessLogWAF) : AccessLogStep c (deleteEnvoyFilter c ns name) ns name := by
  intro ns'
  rw [lookup_deleteEnvoyFilter]
  by_cases hlog : c.othersNeedAccessLog ns name = false ∧
      (ns', accessLogResourceName) = (ns, accessLogResourceName)
  · rw [if_pos (.inl hlog)]
    exact .inr ⟨congrArg Prod.fst hlog.2, .inl ⟨hlog.1, rfl⟩⟩
  · rw [if_neg]
    · exact .inl rfl
    · rintro (hc | hc)
      · exact hlog hc
      · exact resourceName_ne_accessLog hname (congrArg Prod.snd hc).symm

lemma ensureEnvoyFilter_accessLogStep (hostPort : String → Option (String × ℕ))
    (c : SlotCluster) (owner : String) (hname : p.name ≠ accessLogWAF) :
    AccessLogStep c (ensureEnvoyFilter hostPort c owner p) p.ns p.name := by
  intro ns'
  rw [lookup_ensureEnvoyFilter c owner hname]
  by_cases hns : (ns', accessLogResourceName) = (p.ns, accessLogResourceName)
  · rw [if_pos hns]
    split_ifs with hmanaged hneeds
    · exact .inr ⟨congrArg Prod.fst hns, .inr rfl⟩
    · exact .inl rfl
    · exact .inr ⟨congrArg Prod.fst hns, .inl ⟨Bool.eq_false_iff.mpr hneeds, rfl⟩⟩
  · rw [if_neg hns, if_neg]
    · exact .inl rfl
    · exact fun hc => resourceName_ne_accessLog hname (congrArg Prod.snd hc).symm

lemma slotKey_ne {ns' : String} (h : ¬(ns = ns' ∧ name = name')) :
    ((ns', resourceName name') : ObjectKey) ≠ (ns, resourceName name) := by
  intro heq
  obtain ⟨hns, hname⟩ := Prod.mk.inj heq
  exact h ⟨hns.symm, resourceName_inj.mp hname.symm⟩

lemma deleteEnvoyFilter_others (c : SlotCluster) {ns' : String} (hname' : name' ≠ accessLogWAF)
    (hne : ¬(ns = ns' ∧ name = name')) :
    (deleteEnvoyFilter c ns name).envoyFilters.lookup (ns', resourceName name')
      = c.envoyFilters.lookup (ns', resourceName name') := by
  rw [lookup_deleteEnvoyFilter, if_neg]
  rintro (hc | hc)
  · exact resourceName_ne_accessLog hname' (congrArg Prod.snd hc.2)
  · exact slotKey_ne hne hc

lemma indexed_map_upsert (eg : Option ExtensionServer) (p : PortableConfig)
    (h : PlainNames ns name) :
    (eg.map (·.upsert p)).bind (·.indexed ns name) =
      if p.provider = .known .envoyGateway ∧ p.ns = ns ∧ p.name = name then eg.map fun _ => p
      else eg.bind (·.indexed ns name) := by
  cases eg with
  | none => split_ifs <;> rfl
  | some s => exact indexed_upsert s p h

lemma indexed_map_delete (eg : Option ExtensionServer) (ns' name' : String)
    (h : PlainNames ns name) :
    (eg.map (·.delete ns' name')).bind (·.indexed ns name) =
      if ns' = ns ∧ name' = name then none else eg.bind (·.indexed ns name) := by
  cases eg with
  | none => split_ifs <;> rfl
  | some s => exact indexed_delete s ns' name' h

section Calls

variable {hostPort : String → Option (String × ℕ)}

lemma callSpec_ensureDesired (horder : order.Perm Adapter.all) {owner : String}
    (hname : p.name ≠ accessLogWAF) (h : ensureDesired hostPort order c owner p = .ok (c', slot)) :
    CallSpec c c' p.ns p.name := by
  obtain ⟨a, ha, hfilters, hcilium⟩ := ensureDesired_objects horder h
  obtain ⟨a', ha', heg⟩ := ensureDesired_eg horder h
  obtain rfl : a = a' := Except.ok.inj (ha.symm.trans ha')
  constructor
  · intro ns' name' hplain hname' hne
    have hkey := slotKey_ne hne
    have hgateway : c'.eg.bind (·.indexed ns' name') = c.eg.bind (·.indexed ns' name') := by
      rw [heg]
      split_ifs
      · rw [indexed_map_upsert _ _ hplain, if_neg fun hc => hne hc.2]
      · rw [indexed_map_delete _ _ _ hplain, if_neg hne]
    have hfilter : c'.envoyFilters.lookup (ns', resourceName name')
        = c.envoyFilters.lookup (ns', resourceName name') := by
      rw [hfilters]
      split_ifs
      · rw [lookup_ensureEnvoyFilter c owner hname, if_neg, if_neg hkey]
        exact fun hc => resourceName_ne_accessLog hname' (congrArg Prod.snd hc)
      · exact deleteEnvoyFilter_others c hname' hne
    have hconfig : c'.ciliumEnvoyConfigs.lookup (ns', resourceName name')
        = c.ciliumEnvoyConfigs.lookup (ns', resourceName name') := by
      rw [hcilium]
      split_ifs
      · rw [ensureCiliumEnvoyConfig, lookup_createOrUpdate, if_neg hkey]
      · exact AList.lookup_erase_ne hkey
    rw [SlotCluster.slots, SlotCluster.slots, hfilter, hconfig, hgateway]
  · intro ns'
    rw [hfilters]
    split_ifs
    · exact ensureEnvoyFilter_accessLogStep hostPort c owner hname ns'
    · exact deleteEnvoyFilter_accessLogStep c p.ns hname ns'

lemma deleteAll_objects (horder : order.Perm Adapter.all) (c : SlotCluster) (ns name : String) :
    (deleteAll order c ns name).envoyFilters = (deleteEnvoyFilter c ns name).envoyFilters ∧
      (deleteAll order c ns name).ciliumEnvoyConfigs
        = c.ciliumEnvoyConfigs.erase (ns, resourceName name) := by
  constructor
  · refine congrArg Prod.fst (?_ : SlotCluster.istioPart _ = SlotCluster.istioPart _)
    rw [deleteEnvoyFilter_istioPart]
    exact deleteAll_part SlotCluster.istioPart (fun x => (deleteEnvoyFilter
      { envoyFilters := x.1, wafs := x.2 } ns name).istioPart) .istio
      (fun c => deleteEnvoyFilter_istioPart c ns name)
      (fun _ ha c => delete_istioPart_of_ne ha c ns name) horder c
  · exact deleteAll_part (·.ciliumEnvoyConfigs) (fun m => m.erase (ns, resourceName name)) .cilium
      (fun _ => rfl) (fun _ ha c => delete_cilium_of_ne ha c ns name) horder c

lemma callSpec_deleteAll (horder : order.Perm Adapter.all) (c : SlotCluster) (ns : String)
    (hname : name ≠ accessLogWAF) : CallSpec c (deleteAll order c ns name) ns name := by
  obtain ⟨hfilters, hcilium⟩ := deleteAll_objects horder c ns name
  constructor
  · intro ns' name' hplain hname' hne
    rw [SlotCluster.slots, SlotCluster.slots, hfilters, deleteEnvoyFilter_others c hname' hne,
      hcilium, AList.lookup_erase_ne (slotKey_ne hne), deleteAll_eg horder,
      indexed_map_delete _ _ _ hplain, if_neg hne]
  · intro ns'
    rw [hfilters]
    exact deleteEnvoyFilter_accessLogStep c ns hname ns'

lemma slots_deleteAll (horder : order.Perm Adapter.all) (c : SlotCluster)
    (hplain : PlainNames ns name) : (deleteAll order c ns name).slots ns name = {} := by
  obtain ⟨hfilters, hcilium⟩ := deleteAll_objects horder c ns name
  rw [SlotCluster.slots, hfilters, lookup_deleteEnvoyFilter, if_pos (.inr rfl), hcilium,
    AList.lookup_erase, deleteAll_eg horder, indexed_map_delete _ _ _ hplain, if_pos ⟨rfl, rfl⟩]

lemma provider_eq_of_getAdapter {t : ProviderType} (hauto : t ≠ .known .auto ∧ t ≠ .text "")
    (h : getAdapter t = .ok a) : t = a.type := by
  cases t with
  | known provider =>
    cases provider with
    | auto => exact absurd rfl hauto.1
    | envoyGateway => exact congrArg Adapter.type (Except.ok.inj h)
    | istio => exact congrArg Adapter.type (Except.ok.inj h)
    | cilium => exact congrArg Adapter.type (Except.ok.inj h)
  | text t =>
    rw [getAdapter, if_neg fun ht => hauto.2 (congrArg _ ht)] at h
    cases h

lemma wantedSlots_component (hostPort : String → Option (String × ℕ))
    (wanted : Option PortableConfig) :
    ((wantedSlots hostPort wanted).istio.getD {}).component = none ∧
      ((wantedSlots hostPort wanted).cilium.getD {}).component = none := by
  cases wanted with
  | none => exact ⟨rfl, rfl⟩
  | some p =>
    rw [wantedSlots]
    split
    · exact ⟨rfl, rfl⟩
    · exact ⟨rfl, rfl⟩
    · exact ⟨rfl, rfl⟩

lemma slots_ensureDesired (horder : order.Perm Adapter.all) {wanted : Option PortableConfig}
    (hplain : PlainNames p.ns p.name) (hname : p.name ≠ accessLogWAF) (heg : c.eg.isSome)
    (hbefore : c.slots p.ns p.name = wantedSlots hostPort wanted)
    (hauto : p.provider ≠ .known .auto ∧ p.provider ≠ .text "")
    (h : ensureDesired hostPort order c p.name p = .ok (c', slot)) :
    c'.slots p.ns p.name = wantedSlots hostPort (some p) := by
  obtain ⟨a, ha, hfilters, hcilium⟩ := ensureDesired_objects horder h
  obtain ⟨a', ha', hindex⟩ := ensureDesired_eg horder h
  obtain rfl : a = a' := Except.ok.inj (ha.symm.trans ha')
  obtain ⟨server, hserver⟩ := Option.isSome_iff_exists.mp heg
  have hprovider := provider_eq_of_getAdapter hauto ha
  have hlog : (p.ns, resourceName p.name) ≠ (p.ns, accessLogResourceName) :=
    fun heq => resourceName_ne_accessLog hname (congrArg Prod.snd heq)
  -- the objects that were there had no component, so nothing of them stays
  have hcomponents := wantedSlots_component hostPort wanted
  rw [← hbefore] at hcomponents
  have hcomponent : ((c.envoyFilters.lookup (p.ns, resourceName p.name)).getD {}).component
      = none := hcomponents.1
  have hcomponent' : ((c.ciliumEnvoyConfigs.lookup (p.ns, resourceName p.name)).getD {}).component
      = none := hcomponents.2
  -- the objects of an adapter that is not the one of the provider are gone
  have hfilter : a ≠ .istio → c'.envoyFilters.lookup (p.ns, resourceName p.name) = none := by
    intro hne
    rw [hfilters, if_neg hne, lookup_deleteEnvoyFilter, if_pos (.inr rfl)]
  have hconfig : a ≠ .cilium →
      c'.ciliumEnvoyConfigs.lookup (p.ns, resourceName p.name) = none := by
    intro hne
    rw [hcilium, if_neg hne]
    exact AList.lookup_erase _ _
  have hgateway : a ≠ .envoyGateway → c'.eg.bind (·.indexed p.ns p.name) = none := by
    intro hne
    rw [hindex, if_neg hne, indexed_map_delete _ _ _ hplain, if_pos ⟨rfl, rfl⟩]
  cases a with
  | istio =>
    rw [SlotCluster.slots, hconfig (by decide), hgateway (by decide), hfilters, if_pos rfl,
      lookup_ensureEnvoyFilter c p.name hname, if_neg hlog, if_pos rfl]
    simp [wantedSlots, hprovider, Adapter.type, slotObject, hcomponent]
  | cilium =>
    rw [SlotCluster.slots, hfilter (by decide), hgateway (by decide), hcilium, if_pos rfl,
      ensureCiliumEnvoyConfig, lookup_createOrUpdate, if_pos rfl]
    simp [wantedSlots, hprovider, Adapter.type, slotObject, hcomponent']
  | envoyGateway =>
    have hput : c'.eg.bind (·.indexed p.ns p.name) = some p := by
      rw [hindex, if_pos rfl, hserver, indexed_map_upsert _ _ hplain,
        if_pos ⟨hprovider, rfl, rfl⟩, Option.map_some]
    rw [SlotCluster.slots, hfilter (by decide), hconfig (by decide), hput]
    simp [wantedSlots, hprovider, Adapter.type]

end Calls

/-! ## Histories -/

inductive SlotAction where
  /-- `EnsureDesired` for the configuration that is built from the WAF. -/
  | ensure (waf : WAF) (rules : List String) (opts : BuildOptions)
  /-- `DeleteAll` -/
  | delete (ns name : String)

/-- A call, with the WAFs that exist when it is made and the order in which its loops visit the
adapters. -/
structure SlotCall where
  action : SlotAction
  wafs : List WAF
  order : List Adapter := Adapter.all
  order_perm : order.Perm Adapter.all := by exact .refl _

/-- Namespace and name of the WAF that a call is for. -/
def SlotCall.target (call : SlotCall) : String × String :=
  match call.action with
  | .ensure waf _ _ => (waf.ns, waf.name)
  | .delete ns name => (ns, name)

/-- The cluster before the first call, with the extension server of the operator. -/
def SlotCluster.start (opts : BuildOptions) : SlotCluster := { eg := some { opts := opts } }

/-- The cluster as a call finds it. -/
def SlotCall.before (call : SlotCall) (c : SlotCluster) : SlotCluster := { c with wafs := call.wafs }

section Histories

variable (gzip : Gzip) (hostPort : String → Option (String × ℕ))

/-- The cluster behind a call that succeeds. -/
def SlotCluster.call (c : SlotCluster) (call : SlotCall) : Option SlotCluster :=
  match call.action with
  | .ensure waf rules opts =>
    (buildFromWAF gzip waf rules opts).toOption.bind fun p =>
      (ensureDesired hostPort call.order (call.before c) waf.name p).toOption.map Prod.fst
  | .delete ns name => some (deleteAll call.order (call.before c) ns name)

/-- The configuration that a call asks for. -/
def SlotCall.config (call : SlotCall) : Option PortableConfig :=
  match call.action with
  | .ensure waf rules opts => (buildFromWAF gzip waf rules opts).toOption
  | .delete _ _ => none

/-- The configuration of a WAF behind the calls `desired` stands for and one more. -/
def SlotCall.desired (desired : String × String → Option PortableConfig) (call : SlotCall) :
    String × String → Option PortableConfig :=
  Function.update desired call.target (call.config gzip)

/-- The configuration with which a WAF was ensured last, if it was not deleted since. -/
def lastDesired (calls : List SlotCall) : String × String → Option PortableConfig :=
  calls.foldl (SlotCall.desired gzip) fun _ => none

/-- The call `call` is safe for the WAFs with a name of `N`: behind it every WAF has the slots it
is to have, the slots of the others are as before, and an access log that another WAF needs is. -/
structure SlotsSafe (N : Set String) (desired : String × String → Option PortableConfig)
    (c : SlotCluster) (call : SlotCall) (c' : SlotCluster) : Prop where
  exclusive : ∀ ns name, PlainNames ns name → name ∈ N →
    c'.slots ns name = wantedSlots hostPort (desired (ns, name))
  isolated : ∀ ns name, PlainNames ns name → name ∈ N → (ns, name) ≠ call.target →
    c'.slots ns name = c.slots ns name
  accessLog : ∀ ns ef, c.envoyFilters.lookup (ns, accessLogResourceName) = some ef →
    (ns = call.target.1 → (call.before c).othersNeedAccessLog ns call.target.2 = true) →
    c'.envoyFilters.lookup (ns, accessLogResourceName) = some ef

/-- The invariant of a history without a WAF called `otel-access-log`. -/
structure SlotsOwned (desired : String × String → Option PortableConfig) (c : SlotCluster) :
    Prop where
  eg : c.eg.isSome
  slots : ∀ ns name, PlainNames ns name → name ≠ accessLogWAF →
    c.slots ns name = wantedSlots hostPort (desired (ns, name))
  accessLog : ∀ ns, c.envoyFilters.lookup (ns, accessLogResourceName) = none ∨
    c.envoyFilters.lookup (ns, accessLogResourceName) = some accessLogObject

variable {gzip hostPort} {desired : String × String → Option PortableConfig}

lemma call_spec {call : SlotCall} (howned : SlotsOwned hostPort desired c)
    (hplain : PlainNames call.target.1 call.target.2) (hname : call.target.2 ≠ accessLogWAF)
    (h : c.call gzip hostPort call = some c') :
    CallSpec (call.before c) c' call.target.1 call.target.2 ∧ c'.eg.isSome ∧
      c'.slots call.target.1 call.target.2 = wantedSlots hostPort (call.config gzip) := by
  obtain ⟨action, wafs, order, horder⟩ := call
  cases action with
  | delete ns name =>
    obtain rfl := Option.some.inj h
    refine ⟨callSpec_deleteAll horder _ ns hname, ?_, slots_deleteAll horder _ hplain⟩
    rw [deleteAll_eg horder, Option.isSome_map]
    exact howned.eg
  | ensure waf rules opts =>
    obtain ⟨p, hp, hensure⟩ := Option.bind_eq_some_iff.mp h
    obtain ⟨⟨c'', slot⟩, hok, rfl⟩ := Option.map_eq_some_iff.mp hensure
    have hok := toOption_eq_some.mp hok
    obtain ⟨challenge, _, hbuilt⟩ := buildFromWAF_eq_ok (toOption_eq_some.mp hp)
    have hns : p.ns = waf.ns := by rw [← hbuilt]; rfl
    have hpname : p.name = waf.name := by rw [← hbuilt]; rfl
    have hprovider : p.provider = resolveProviderType waf opts := by rw [← hbuilt]; rfl
    have hconfig : SlotCall.config gzip ⟨.ensure waf rules opts, wafs, order, horder⟩ = some p :=
      hp
    rw [SlotCall.target] at hplain hname ⊢
    rw [hconfig]
    simp only [← hns, ← hpname] at hplain hname hok ⊢
    refine ⟨callSpec_ensureDesired horder hname hok, ?_, ?_⟩
    · obtain ⟨a, _, heg⟩ := ensureDesired_eg horder hok
      rw [heg]
      split_ifs
      · exact (Option.isSome_map ..).trans howned.eg
      · exact (Option.isSome_map ..).trans howned.eg
    · have hauto : p.provider ≠ .known .auto ∧ p.provider ≠ .text "" := by
        rw [hprovider]
        exact resolveProviderType_ne waf opts
      exact slots_ensureDesired (c := SlotCall.before ⟨_, wafs, order, horder⟩ c) horder hplain
        hname howned.eg (howned.slots p.ns p.name hplain hname) hauto hok

lemma SlotsOwned.call {call : SlotCall} (howned : SlotsOwned hostPort desired c)
    (hplain : PlainNames call.target.1 call.target.2) (hname : call.target.2 ≠ accessLogWAF)
    (h : c.call gzip hostPort call = some c') :
    SlotsOwned hostPort (call.desired gzip desired) c' := by
  obtain ⟨hspec, heg, hown⟩ := call_spec howned hplain hname h
  refine ⟨heg, ?_, ?_⟩
  · intro ns name hplain' hname'
    by_cases htarget : (ns, name) = call.target
    · rw [htarget, SlotCall.desired, Function.update_self, ← hown, ← htarget]
    · rw [SlotCall.desired, Function.update_of_ne htarget, ← howned.slots ns name hplain' hname']
      refine hspec.others ns name hplain' hname' fun heq => htarget ?_
      rw [← heq.1, ← heq.2]
  · intro ns
    rcases hspec.accessLog ns with hsame | ⟨_, ⟨_, hgone⟩ | hwritten⟩
    · rw [hsame]
      exact howned.accessLog ns
    · exact .inl hgone
    · refine .inr (hwritten.trans (congrArg some ?_))
      -- what is written over the access log, or over nothing, is the access log
      have hlog : (call.before c).envoyFilters.lookup (ns, accessLogResourceName) = none ∨
          (call.before c).envoyFilters.lookup (ns, accessLogResourceName)
            = some accessLogObject := howned.accessLog ns
      rcases hlog with hlog | hlog
      · rw [hlog]
        rfl
      · rw [hlog]
        rfl

lemma slotsOwned_start (opts : BuildOptions) :
    SlotsOwned hostPort (fun _ => none) (SlotCluster.start opts) :=
  ⟨rfl, fun _ _ _ _ => rfl, fun _ => .inl rfl⟩

lemma slotsOwned_of_run {opts : BuildOptions} {calls : List SlotCall}
    (hcalls : ∀ call ∈ calls, PlainNames call.target.1 call.target.2 ∧
      call.target.2 ≠ accessLogWAF)
    (h : runEvents (SlotCluster.call gzip hostPort) calls (SlotCluster.start opts) = some c) :
    SlotsOwned hostPort (lastDesired gzip calls) c := by
  -- the invariant for what was desired so far, from which the calls to come lead to the end
  have hrun := runEvents_invariant
    (fun rest c => (∀ call ∈ rest, PlainNames call.target.1 call.target.2 ∧
        call.target.2 ≠ accessLogWAF) ∧
      ∃ desired, SlotsOwned hostPort desired c ∧
        rest.foldl (SlotCall.desired gzip) desired = lastDesired gzip calls)
    ?_ h ⟨hcalls, _, slotsOwned_start opts, rfl⟩
  · obtain ⟨_, desired, howned, hdesired⟩ := hrun
    rw [← hdesired]
    exact howned
  · rintro call rest c c' ⟨hrest, desired, howned, hdesired⟩ hc'
    obtain ⟨hplain, hname⟩ := hrest call mem_cons_self
    exact ⟨fun e he => hrest e (mem_cons_of_mem call he), _,
      howned.call hplain hname hc', hdesired⟩

lemma slotsSafe_of_owned {N : Set String} (hN : accessLogWAF ∉ N) {call : SlotCall}
    (howned : SlotsOwned hostPort desired c) (hplain : PlainNames call.target.1 call.target.2)
    (hname : call.target.2 ∈ N) (h : c.call gzip hostPort call = some c') :
    SlotsSafe hostPort N (call.desired gzip desired) c call c' := by
  have hne : ∀ name ∈ N, name ≠ accessLogWAF := fun name hmem heq => hN (heq ▸ hmem)
  obtain ⟨hspec, _, _⟩ := call_spec howned hplain (hne _ hname) h
  refine ⟨?_, ?_, ?_⟩
  · intro ns name hplain' hmem
    exact (howned.call hplain (hne _ hname) h).slots ns name hplain' (hne name hmem)
  · intro ns name hplain' hmem htarget
    refine hspec.others ns name hplain' (hne name hmem) fun heq => htarget ?_
    rw [← heq.1, ← heq.2]
  · intro ns ef hef hneeds
    rcases hspec.accessLog ns with hsame | ⟨hns, ⟨hnot, _⟩ | hwritten⟩
    · rw [hsame]
      exact hef
    · rw [← hns, hneeds hns] at hnot
      cases hnot
    · rw [hwritten]
      have hlog : ef = accessLogObject := by
        rcases howned.accessLog ns with hlog | hlog
        · rw [hlog] at hef
          cases hef
        · exact Option.some.inj (hef.symm.trans hlog)
      have hbefore : (call.before c).envoyFilters.lookup (ns, accessLogResourceName) = some ef :=
        hef
      rw [hbefore, hlog]
      rfl

variable (gzip hostPort)

/-- A WAF that is called as the access log. -/
def clashingWAF : WAF where
  ns := "shop"
  name := accessLogWAF
  provider := some { type := .known .istio }

def clashingCall : SlotCall := ⟨.ensure clashingWAF [] plainOptions, [clashingWAF], _, .refl _⟩

lemma clashingCall_spec (opts : BuildOptions) :
    ∃ p c', clashingCall.config gzip = some p ∧ p.provider = .known .istio ∧
      (SlotCluster.start opts).call gzip hostPort clashingCall = some c' ∧
      (c'.slots "shop" accessLogWAF).istio = none := by
  have hbuilt : buildFromWAF gzip clashingWAF [] plainOptions
      = .ok (portableConfig gzip clashingWAF [] plainOptions []) := by
    have hurl : (engineFilter gzip clashingWAF [] plainOptions).httpURL
        = plainOptions.defaultWasmHTTPURL := rfl
    have hsha : (engineFilter gzip clashingWAF [] plainOptions).sha256
        = plainOptions.defaultWasmSHA256 := rfl
    rw [buildFromWAF, hurl, hsha, if_neg (by decide), if_neg (by decide)]
    rfl
  obtain ⟨p, hp⟩ : ∃ p, p = portableConfig gzip clashingWAF [] plainOptions [] := ⟨_, rfl⟩
  have hprovider : p.provider = .known .istio := by rw [hp]; rfl
  have hmanaged : p.telemetryManaged = false := by rw [hp]; rfl
  have hns : p.ns = "shop" := by rw [hp]; rfl
  have hname : p.name = accessLogWAF := by rw [hp]; rfl
  have hensure : ensureDesired hostPort clashingCall.order
      (clashingCall.before (SlotCluster.start opts)) accessLogWAF p
      = .ok (ensureEnvoyFilter hostPort (deleteOthers clashingCall.order
        (clashingCall.before (SlotCluster.start opts)) p.ns p.name .istio) accessLogWAF p,
          Adapter.istio.kind, Adapter.istio.slotName p) := by
    rw [ensureDesired, hprovider]
    rfl
  rw [← hp] at hbuilt
  have hcall : (SlotCluster.start opts).call gzip hostPort clashingCall = some _ :=
    Option.bind_eq_some_iff.mpr ⟨p, congrArg Except.toOption hbuilt,
      congrArg (fun r => (Except.toOption r).map Prod.fst) hensure⟩
  refine ⟨p, _, congrArg Except.toOption hbuilt, hprovider, hcall, ?_⟩
  rw [ensureEnvoyFilter, hmanaged, hns, hname, if_neg Bool.false_ne_true, SlotCluster.slots,
    lookup_maybeDelete, if_pos]
  exact ⟨rfl, by decide⟩

/-- Every call of every history for WAFs with a name of `N` is safe exactly if none of them is
called `otel-access-log`. -/
theorem slots_safe_iff (opts : BuildOptions) (N : Set String) :
    (∀ (calls : List SlotCall) (call : SlotCall) (c c' : SlotCluster),
      (∀ e ∈ calls ++ [call], PlainNames e.target.1 e.target.2 ∧ e.target.2 ∈ N) →
      runEvents (SlotCluster.call gzip hostPort) calls (SlotCluster.start opts) = some c →
      c.call gzip hostPort call = some c' →
      SlotsSafe hostPort N (lastDesired gzip (calls ++ [call])) c call c') ↔
    accessLogWAF ∉ N := by
  constructor
  · intro hsafe hmem
    obtain ⟨p, c', hconfig, hprovider, hcall, hslot⟩ := clashingCall_spec gzip hostPort opts
    have hplain : PlainNames "shop" accessLogWAF := by decide
    have hnames : ∀ e ∈ [] ++ [clashingCall], PlainNames e.target.1 e.target.2 ∧ e.target.2 ∈ N := by
      intro e he
      rw [mem_singleton.mp he]
      exact ⟨hplain, hmem⟩
    have hslots := (hsafe [] clashingCall _ c' hnames rfl hcall).exclusive _ _ hplain hmem
    have hdesired : lastDesired gzip ([] ++ [clashingCall]) ("shop", accessLogWAF) = some p := by
      show Function.update (fun _ => none) clashingCall.target (clashingCall.config gzip)
        clashingCall.target = some p
      rw [Function.update_self, hconfig]
    rw [hdesired, wantedSlots, hprovider] at hslots
    rw [hslots] at hslot
    cases hslot
  · intro hN calls call c c' hnames hrun hcall
    have hne : ∀ name ∈ N, name ≠ accessLogWAF := fun name hmem heq => hN (heq ▸ hmem)
    have howned := slotsOwned_of_run (fun e he =>
      have h := hnames e (mem_append_left _ he)
      ⟨h.1, hne _ h.2⟩) hrun
    obtain ⟨hplain, hname⟩ := hnames call (mem_append_right _ (mem_singleton_self call))
    have hdesired : lastDesired gzip (calls ++ [call])
        = call.desired gzip (lastDesired gzip calls) := foldl_append
    rw [hdesired]
    exact slotsSafe_of_owned hN howned hplain hname hcall

/-- A WAF with managed telemetry next to it. -/
def webWAF : WAF where
  ns := "shop"
  name := "web"
  provider := some { type := .known .istio }
  telemetry := some (.known .managed)

def webCall : SlotCall := ⟨.ensure webWAF [] plainOptions, [webWAF], _, .refl _⟩

def clashingDelete : SlotCall := ⟨.delete "shop" accessLogWAF, [webWAF], _, .refl _⟩

/-- With a WAF of that name there is no slot behind `EnsureDesired`, and deleting the WAF deletes
the access log that `shop/web` needs. -/
theorem clashingWAF_unsafe :
    (∃ p c', clashingCall.config plainOperator.gzip = some p ∧ p.provider = .known .istio ∧
      (SlotCluster.start {}).call plainOperator.gzip plainHostPort clashingCall = some c' ∧
      (c'.slots "shop" accessLogWAF).istio = none) ∧
    ∃ c c', (SlotCluster.start {}).call plainOperator.gzip plainHostPort webCall = some c ∧
      c.envoyFilters.lookup ("shop", accessLogResourceName) = some accessLogObject ∧
      c.call plainOperator.gzip plainHostPort clashingDelete = some c' ∧
      (clashingDelete.before c).othersNeedAccessLog "shop" accessLogWAF = true ∧
      c'.envoyFilters.lookup ("shop", accessLogResourceName) = none := by
  refine ⟨clashingCall_spec _ _ _, ?_⟩
  have hweb : ((SlotCluster.start {}).call plainOperator.gzip plainHostPort webCall).map
      (fun c => (c.envoyFilters.lookup ("shop", accessLogResourceName),
        (clashingDelete.before c).othersNeedAccessLog "shop" accessLogWAF))
      = some (some accessLogObject, true) := by
    decide +kernel
  obtain ⟨c, hc, hlog⟩ := Option.map_eq_some_iff.mp hweb
  obtain ⟨hlog, hneeds⟩ := Prod.mk.inj hlog
  have hslots := slots_deleteAll clashingDelete.order_perm (clashingDelete.before c)
    (show PlainNames "shop" accessLogWAF by decide)
  exact ⟨c, _, hc, hlog, rfl, hneeds, congrArg WafSlots.istio hslots⟩

end Histories

end KubeWaf.Dataplane
