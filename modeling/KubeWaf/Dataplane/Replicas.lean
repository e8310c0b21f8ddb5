import KubeWaf.Dataplane.Pipeline
import KubeWaf.Dataplane.Slots
import KubeWaf.Lib.Runs

/-!
# The leader and the other replicas

Every replica publishes the WAFs into its own stores, but by two paths. The leader runs the
reconciler of `internal/controller/waf/waf_controller.go`, which publishes and then hands the
configuration to the slot registry; the other replicas run the sync reconciler, which only
publishes. Publishing does not touch the index of the extension server for a provider other than
Envoy Gateway, so the two indexes differ when a WAF has moved away from Envoy Gateway
(`indexes_agree_iff`).
-/

namespace KubeWaf.Dataplane

open Lib List

variable {r r' : Replicas} {e : WafEvent} {entry : String → String → Option PortableConfig}

/-! ## The leader -/

/-- What the leader works on; its publishers and its slot registry share the extension server. -/
structure Leader where
  ecds : Option EcdsServer := none
  slots : SlotCluster := {}

def Leader.publishers (l : Leader) : Publishers := ⟨l.ecds, l.slots.eg⟩

def Leader.withPublishers (l : Leader) (pubs : Publishers) : Leader :=
  { l with ecds := pubs.ecds, slots := { l.slots with eg := pubs.egExtension } }

/-- `publishErrorReason(err)`, as the text that `markNotReady` makes of it. -/
def publishErrorText (s : String) : String :=
  let named (reason : String) : Option String :=
    if (reason ++ ":").toList.isPrefixOf s.toList then
      some (reason ++ ": " ++ Go.trimSpace (Go.trimPrefixStr s (reason ++ ":")))
    else none
  (named "ECDSNotConfigured" <|> named "ECDSUpsertFailed").getD ("PublishFailed: " ++ s)

section Reconcile

variable (op : Operator) (wasmCodeClusterHostPort : String → Option (String × ℕ))
  (buildOpts : BuildOptions)

/-- `Reconcile` of the leader behind a build without reference errors. -/
def Operator.leaderPublish (order : List Adapter) (waf : WAF) (p : PortableConfig) (l : Leader) :
    Leader × Option String :=
  match publish op.urlScheme p l.publishers {} with
  | (pubs, some e) => (l.withPublishers pubs, some (publishErrorText e))
  | (pubs, none) =>
    let l := l.withPublishers pubs
    match ensureDesired wasmCodeClusterHostPort order l.slots waf.name p with
    | .error e => (l, some ("SlotFailed: " ++ e))
    | .ok (slots, _, _) => ({ l with slots := slots }, none)

/-- `Reconcile` of the leader; the finalizers and the status of the WAF are left out. -/
def Operator.leaderReconcile (order : List Adapter) (answer : GetAnswer WAF)
    (reads : ClusterReads) (l : Leader) : Leader × Option String :=
  match answer with
  | .failed e => (l, some e)
  | .notFound => (l, some "not found")
  | .found waf =>
    if waf.deleting then
      let l := l.withPublishers (dropLocal waf.ns waf.name l.publishers)
      ({ l with slots := deleteAll order l.slots waf.ns waf.name }, none)
    else
      match op.build waf reads { buildOpts := buildOpts } with
      | .error e => (l, some ("BuildFailed: " ++ e))
      | .ok res =>
        -- references that do not resolve end the reconcile without an error
        if res.referenceErrors ≠ [] then (l, none)
        else op.leaderPublish wasmCodeClusterHostPort order waf res.portable l

end Reconcile

/-! ## Histories -/

/-- A change of a WAF and what the reconcilers read when they see it. A WAF is deleted with a
deletion timestamp first; another replica than the leader may find it gone already. -/
structure WafEvent where
  waf : WAF
  reads : ClusterReads
  gone : Bool := false
  order : List Adapter := Adapter.all
  order_perm : order.Perm Adapter.all := by exact .refl _

/-- What the sync reconciler gets for the WAF. -/
def WafEvent.answer (e : WafEvent) : GetAnswer WAF :=
  if e.waf.deleting && e.gone then .notFound else .found e.waf

/-- The leader and another replica. -/
structure Replicas where
  leader : Leader
  sync : Publishers

/-- Both replicas as they start. -/
def Replicas.start (opts : BuildOptions) : Replicas where
  leader := { ecds := some .new, slots := { eg := some { opts := opts } } }
  sync := { ecds := some .new, egExtension := some { opts := opts } }

section Histories

variable (op : Operator) (wasmCodeClusterHostPort : String → Option (String × ℕ))
  (buildOpts : BuildOptions)

/-- Both replicas reconcile a change, where neither returns an error. -/
def Replicas.step (r : Replicas) (e : WafEvent) : Option Replicas :=
  match
    op.leaderReconcile wasmCodeClusterHostPort buildOpts e.order (.found e.waf) e.reads r.leader,
    op.syncReconcile buildOpts e.waf.ns e.waf.name e.answer e.reads r.sync with
  | (leader, none), (sync, none) => some ⟨leader, sync⟩
  | _, _ => none

/-- The event is a change of the WAF `ns/name`. -/
def WafEvent.isFor (e : WafEvent) (ns name : String) : Bool := e.waf.ns = ns && e.waf.name = name

/-- The event builds its WAF for Envoy Gateway. -/
def WafEvent.forGateway (e : WafEvent) : Bool :=
  builtProvider e.waf e.reads buildOpts = .known .envoyGateway

/-- The configuration that the event builds. -/
def WafEvent.portable (e : WafEvent) : Option PortableConfig :=
  (op.build e.waf e.reads (syncOptions buildOpts)).toOption.map (·.portable)

/-- The builds of a WAF since its last deletion, the latest one first. -/
def buildsSinceDeletion (ns name : String) (es : List WafEvent) : List WafEvent :=
  (es.filter (·.isFor ns name)).reverse.takeWhile fun e => !e.waf.deleting

/-- The entry that the index is to have for a WAF: its last built configuration, if the WAF is
there and that is one for Envoy Gateway. -/
def expectedEntry (es : List WafEvent) (ns name : String) : Option PortableConfig :=
  (es.filter (·.isFor ns name)).getLast?.bind fun e =>
    if e.waf.deleting = false ∧ e.forGateway buildOpts then e.portable op buildOpts else none

/-- The entry of a WAF in the index of the other replica, and in that of the leader. -/
def Replicas.syncEntry (r : Replicas) (ns name : String) : Option PortableConfig :=
  r.sync.egExtension.bind (·.indexed ns name)

def Replicas.leaderEntry (r : Replicas) (ns name : String) : Option PortableConfig :=
  r.leader.slots.eg.bind (·.indexed ns name)

/-! ## One event -/

variable {op} {wasmCodeClusterHostPort} {buildOpts}

lemma step_eq_some (h : r.step op wasmCodeClusterHostPort buildOpts e = some r') :
    op.leaderReconcile wasmCodeClusterHostPort buildOpts e.order (.found e.waf) e.reads r.leader
        = (r'.leader, none) ∧
      op.syncReconcile buildOpts e.waf.ns e.waf.name e.answer e.reads r.sync
        = (r'.sync, none) := by
  rw [Replicas.step] at h
  split at h
  · rename_i leader sync hleader hsync
    obtain rfl := Option.some.inj h
    exact ⟨hleader, hsync⟩
  · cases h

lemma syncReconcile_deleting (hdel : e.waf.deleting = true) (pubs : Publishers) :
    op.syncReconcile buildOpts e.waf.ns e.waf.name e.answer e.reads pubs
      = (dropLocal e.waf.ns e.waf.name pubs, none) := by
  rw [WafEvent.answer, hdel, Bool.true_and]
  cases e.gone with
  | true => rfl
  | false =>
    simp [Operator.syncReconcile, hdel]

lemma syncReconcile_build (hdel : e.waf.deleting = false) (pubs : Publishers) :
    op.syncReconcile buildOpts e.waf.ns e.waf.name e.answer e.reads pubs
      = op.buildAndPublish e.waf e.reads pubs (syncOptions buildOpts) := by
  simp [WafEvent.answer, hdel, Operator.syncReconcile]

lemma step_built (hdel : e.waf.deleting = false)
    (h : r.step op wasmCodeClusterHostPort buildOpts e = some r') :
    ∃ p, e.portable op buildOpts = some p ∧
      p.ns = e.waf.ns ∧ p.name = e.waf.name ∧ p.provider = builtProvider e.waf e.reads buildOpts ∧
      op.leaderPublish wasmCodeClusterHostPort e.order e.waf p r.leader = (r'.leader, none) ∧
      publish op.urlScheme p r.sync (syncOptions buildOpts) = (r'.sync, none) := by
  obtain ⟨hleader, hsync⟩ := step_eq_some h
  rw [syncReconcile_build hdel] at hsync
  obtain ⟨res, hres, hrefs, hpublish⟩ := buildAndPublish_eq_none hsync
  -- the leader builds the same without insisting on the references
  obtain ⟨href, _, hportable⟩ := build_eq_ok_iff.mp hres
  have hbuild : op.build e.waf e.reads { buildOpts := buildOpts } = .ok res :=
    build_eq_ok_iff.mpr ⟨href, fun h => absurd h Bool.false_ne_true, hportable⟩
  simp only [Operator.leaderReconcile, hdel, Bool.false_eq_true, if_false, hbuild, hrefs,
    ne_eq, not_true_eq_false] at hleader
  obtain ⟨b⟩ := buildPortable_eq_ok hportable
  refine ⟨res.portable, ?_, b.ns_eq, b.name_eq, b.provider, hleader, hpublish⟩
  rw [WafEvent.portable, hres]
  rfl

lemma leaderPublish_eg {order : List Adapter} (horder : order.Perm Adapter.all) {waf : WAF}
    {p : PortableConfig} {l l' : Leader}
    (h : op.leaderPublish wasmCodeClusterHostPort order waf p l = (l', none)) :
    ∃ a, getAdapter p.provider = .ok a ∧
      l'.slots.eg = if a = .envoyGateway then (l.slots.eg.map (·.upsert p)).map (·.upsert p)
        else (l.slots.eg.map (·.upsert p)).map (·.delete p.ns p.name) := by
  rw [Operator.leaderPublish] at h
  cases hpub : publish op.urlScheme p l.publishers {} with
  | mk pubs err =>
    rw [hpub] at h
    cases err with
    | some e => cases congrArg Prod.snd h
    | none =>
      have heg : pubs.egExtension = l.slots.eg.map (·.upsert p) := publish_egExtension _ hpub
      cases hslots : ensureDesired wasmCodeClusterHostPort order (l.withPublishers pubs).slots
          waf.name p with
      | error e =>
        simp only [hslots] at h
        cases congrArg Prod.snd h
      | ok res =>
        simp only [hslots] at h
        obtain ⟨a, ha, hres⟩ := ensureDesired_eg horder hslots
        obtain ⟨rfl, _⟩ := Prod.mk.inj h
        exact ⟨a, ha, by rw [← heg]; exact hres⟩

/-! ## Entries along a history -/

/-- A server whose index has these entries. -/
def Tracks (eg : Option ExtensionServer) (entry : String → String → Option PortableConfig) :
    Prop :=
  ∃ s, eg = some s ∧ ∀ ns name, PlainNames ns name → s.indexed ns name = entry ns name

variable (op buildOpts)

/-- What an event does to the entry of a WAF on a replica that only publishes. -/
def syncUpdate (ns name : String) (entry : Option PortableConfig) (e : WafEvent) :
    Option PortableConfig :=
  if e.isFor ns name then
    if e.waf.deleting then none
    else if e.forGateway buildOpts then e.portable op buildOpts else entry
  else entry

/-- What an event does to the entry of a WAF on the leader. -/
def leaderUpdate (ns name : String) (entry : Option PortableConfig) (e : WafEvent) :
    Option PortableConfig :=
  if e.isFor ns name then
    if e.waf.deleting then none
    else if e.forGateway buildOpts then e.portable op buildOpts else none
  else entry

variable {op} {buildOpts} (ns name : String) (es : List WafEvent)

lemma Tracks.map {eg : Option ExtensionServer}
    {entry' : String → String → Option PortableConfig} {f : ExtensionServer → ExtensionServer}
    (h : Tracks eg entry)
    (hf : ∀ s ns name, PlainNames ns name → s.indexed ns name = entry ns name →
      (f s).indexed ns name = entry' ns name) : Tracks (eg.map f) entry' := by
  obtain ⟨s, rfl, hs⟩ := h
  exact ⟨f s, rfl, fun ns name hplain => hf s ns name hplain (hs ns name hplain)⟩

lemma isFor_iff {ns name : String} :
    e.isFor ns name = true ↔ e.waf.ns = ns ∧ e.waf.name = name := by
  simp [WafEvent.isFor]

lemma forGateway_iff :
    e.forGateway buildOpts = true ↔
      builtProvider e.waf e.reads buildOpts = .known .envoyGateway := by
  simp [WafEvent.forGateway]

lemma tracks_sync (ht : Tracks r.sync.egExtension entry)
    (h : r.step op wasmCodeClusterHostPort buildOpts e = some r') :
    Tracks r'.sync.egExtension fun ns name => syncUpdate op buildOpts ns name (entry ns name) e := by
  by_cases hdel : e.waf.deleting = true
  · have hsync := (step_eq_some h).2
    rw [syncReconcile_deleting hdel] at hsync
    rw [← (Prod.mk.inj hsync).1]
    refine ht.map fun s ns name hplain hs => ?_
    rw [indexed_delete s _ _ hplain, syncUpdate]
    simp [isFor_iff, hdel, hs]
  · have hdel := Bool.eq_false_iff.mpr hdel
    obtain ⟨p, hp, hns, hname, hprov, _, hpublish⟩ := step_built hdel h
    rw [publish_egExtension _ hpublish]
    refine ht.map fun s ns name hplain hs => ?_
    rw [indexed_upsert s p hplain, hns, hname, hprov, syncUpdate, hs]
    by_cases hfor : e.isFor ns name = true
    · rw [if_pos hfor, hdel]
      simp [isFor_iff.mp hfor, hp, forGateway_iff]
    · rw [if_neg hfor, if_neg]
      exact fun hc => hfor (isFor_iff.mpr hc.2)

lemma tracks_leader (ht : Tracks r.leader.slots.eg entry)
    (h : r.step op wasmCodeClusterHostPort buildOpts e = some r') :
    Tracks r'.leader.slots.eg
      fun ns name => leaderUpdate op buildOpts ns name (entry ns name) e := by
  by_cases hdel : e.waf.deleting = true
  · have hleader := (step_eq_some h).1
    simp only [Operator.leaderReconcile, hdel, if_true] at hleader
    rw [← (Prod.mk.inj hleader).1]
    -- the entry is dropped, and deleted once more by the registry
    show Tracks (deleteAll e.order _ e.waf.ns e.waf.name).eg _
    rw [deleteAll_eg e.order_perm]
    have hdrop : Tracks ((r.leader.slots.eg).map (·.delete e.waf.ns e.waf.name))
        fun ns name => leaderUpdate op buildOpts ns name (entry ns name) e := by
      refine ht.map fun s ns name hplain hs => ?_
      rw [indexed_delete s _ _ hplain, leaderUpdate]
      simp [isFor_iff, hdel, hs]
    refine hdrop.map fun s ns name hplain hs => ?_
    rw [indexed_delete s _ _ hplain, hs, leaderUpdate]
    simp only [isFor_iff, hdel, if_true, ite_eq_right_iff]
    intro hkey
    rw [if_pos hkey]
  · have hdel := Bool.eq_false_iff.mpr hdel
    obtain ⟨p, hp, hns, hname, hprov, hpublish, _⟩ := step_built hdel h
    obtain ⟨a, ha, heg⟩ := leaderPublish_eg e.order_perm hpublish
    rw [heg, Option.map_map, Option.map_map]
    by_cases hgateway : builtProvider e.waf e.reads buildOpts = .known .envoyGateway
    · have haeq : a = .envoyGateway := by
        rw [hprov, hgateway] at ha
        exact (Except.ok.inj ha).symm
      rw [if_pos haeq]
      refine ht.map fun s ns name hplain hs => ?_
      rw [Function.comp_apply, indexed_upsert _ p hplain, indexed_upsert s p hplain, hns, hname,
        hprov, leaderUpdate, hs]
      simp only [hgateway, true_and, isFor_iff, hdel, Bool.false_eq_true, if_false, hp,
        forGateway_iff, if_true]
      split_ifs <;> rfl
    · have hane : a ≠ .envoyGateway := by
        rintro rfl
        have hne := resolveProviderType_ne e.waf
          { buildOpts with detectedProvider := detectedProvider e.waf e.reads buildOpts }
        rw [hprov] at ha
        rcases of_getAdapter_envoyGateway ha with h | h | h
        · exact hgateway h
        · exact hne.1 h
        · exact hne.2 h
      rw [if_neg hane]
      refine ht.map fun s ns name hplain hs => ?_
      rw [Function.comp_apply, indexed_delete _ _ _ hplain, indexed_upsert s p hplain, hns, hname,
        hprov, leaderUpdate, hs]
      simp [hgateway, isFor_iff, hdel, forGateway_iff]

lemma tracks_run {es : List WafEvent} {sync leader : String → String → Option PortableConfig}
    (hsync : Tracks r.sync.egExtension sync) (hleader : Tracks r.leader.slots.eg leader)
    (h : runEvents (Replicas.step op wasmCodeClusterHostPort buildOpts) es r = some r') :
    Tracks r'.sync.egExtension
        (fun ns name => es.foldl (syncUpdate op buildOpts ns name) (sync ns name)) ∧
      Tracks r'.leader.slots.eg
        (fun ns name => es.foldl (leaderUpdate op buildOpts ns name) (leader ns name)) ∧
      ∀ e ∈ es, e.waf.deleting = false → (e.portable op buildOpts).isSome := by
  induction es generalizing r sync leader with
  | nil =>
    obtain rfl := Option.some.inj h
    exact ⟨hsync, hleader, fun e he => absurd he not_mem_nil⟩
  | cons e es ih =>
    obtain ⟨r₁, hr₁, hrest⟩ := Option.bind_eq_some_iff.mp h
    obtain ⟨hs, hl, hbuilt⟩ := ih (tracks_sync hsync hr₁) (tracks_leader hleader hr₁) hrest
    refine ⟨hs, hl, fun e' he' hdel => ?_⟩
    rcases mem_cons.mp he' with rfl | he'
    · obtain ⟨p, hp, _⟩ := step_built hdel hr₁
      rw [hp]
      rfl
    · exact hbuilt e' he' hdel

lemma filter_isFor_concat (e : WafEvent) :
    (es ++ [e]).filter (·.isFor ns name) =
      if e.isFor ns name then es.filter (·.isFor ns name) ++ [e]
      else es.filter (·.isFor ns name) := by
  by_cases hfor : e.isFor ns name = true
  · simp [filter_append, hfor]
  · simp [filter_append, hfor]

lemma buildsSinceDeletion_concat (e : WafEvent) :
    buildsSinceDeletion ns name (es ++ [e]) =
      if e.isFor ns name then
        if e.waf.deleting then [] else e :: buildsSinceDeletion ns name es
      else buildsSinceDeletion ns name es := by
  rw [buildsSinceDeletion, buildsSinceDeletion, filter_isFor_concat]
  by_cases hfor : e.isFor ns name = true
  · rw [if_pos hfor, if_pos hfor, reverse_concat, takeWhile_cons]
    by_cases hdel : e.waf.deleting = true
    · simp [hdel]
    · simp [hdel]
  · rw [if_neg hfor, if_neg hfor]

lemma foldl_syncUpdate :
    es.foldl (syncUpdate op buildOpts ns name) none =
      ((buildsSinceDeletion ns name es).find? (·.forGateway buildOpts)).bind
        (·.portable op buildOpts) := by
  induction es using List.reverseRecOn with
  | nil => rfl
  | append_singleton es e ih =>
    rw [foldl_append, foldl_cons, foldl_nil, ih, syncUpdate, buildsSinceDeletion_concat]
    split_ifs with hfor hdel hgateway
    · rfl
    · rw [find?_cons_of_pos hgateway]
      rfl
    · rw [find?_cons_of_neg hgateway]
    · rfl

lemma foldl_leaderUpdate :
    es.foldl (leaderUpdate op buildOpts ns name) none = expectedEntry op buildOpts es ns name := by
  induction es using List.reverseRecOn with
  | nil => rfl
  | append_singleton es e ih =>
    rw [foldl_append, foldl_cons, foldl_nil, ih, leaderUpdate, expectedEntry,
      expectedEntry, filter_isFor_concat]
    by_cases hfor : e.isFor ns name = true
    · rw [if_pos hfor, if_pos hfor, getLast?_concat]
      cases hdel : e.waf.deleting with
      | true => simp [hdel]
      | false => simp [hdel]
    · rw [if_neg hfor, if_neg hfor]

lemma expectedEntry_eq :
    expectedEntry op buildOpts es ns name =
      (buildsSinceDeletion ns name es).head?.bind fun e =>
        if e.forGateway buildOpts then e.portable op buildOpts else none := by
  induction es using List.reverseRecOn with
  | nil => rfl
  | append_singleton es e ih =>
    rw [buildsSinceDeletion_concat, ← foldl_leaderUpdate, foldl_append, foldl_cons,
      foldl_nil, foldl_leaderUpdate, ih, leaderUpdate]
    split_ifs with hfor hdel
    · rfl
    · simp [*]
    · simp [*]
    · rfl

/-- Of the builds of a WAF since its last deletion, the latest one is for Envoy Gateway or none
of them is. -/
def NotMovedAway (buildOpts : BuildOptions) (es : List WafEvent) (ns name : String) : Prop :=
  (∃ e ∈ buildsSinceDeletion ns name es, e.forGateway buildOpts) →
    ∃ e ∈ (buildsSinceDeletion ns name es).head?, e.forGateway buildOpts

lemma find_eq_head_iff {builds : List WafEvent}
    (hbuilt : ∀ e ∈ builds, (e.portable op buildOpts).isSome) :
    (builds.find? (·.forGateway buildOpts)).bind (·.portable op buildOpts) =
        (builds.head?.bind fun e =>
          if e.forGateway buildOpts then e.portable op buildOpts else none) ↔
      ((∃ e ∈ builds, e.forGateway buildOpts) → ∃ e ∈ builds.head?, e.forGateway buildOpts) := by
  cases builds with
  | nil => simp
  | cons e builds =>
    by_cases hgateway : e.forGateway buildOpts = true
    · simp [hgateway]
    · rw [find?_cons_of_neg hgateway]
      simp only [head?_cons, Option.bind_some, hgateway, Bool.false_eq_true, if_false,
        Option.mem_def, Option.some.injEq, exists_eq_left']
      constructor
      · rintro hnone ⟨e', he', hgateway'⟩
        have hmem : e' ∈ builds := (mem_cons.mp he').resolve_left
          fun heq => hgateway (heq ▸ hgateway')
        -- the build for Envoy Gateway that is found has a configuration
        obtain ⟨found, hfound⟩ := Option.isSome_iff_exists.mp
          (find?_isSome.mpr ⟨e', hmem, hgateway'⟩)
        rw [hfound, Option.bind_some] at hnone
        have hsome := hbuilt found (mem_cons_of_mem _ (mem_of_find?_eq_some hfound))
        rw [hnone] at hsome
        cases hsome
      · intro hnone
        rw [find?_eq_none.mpr, Option.bind_none]
        exact fun e' he' hgateway' => hnone ⟨e', mem_cons_of_mem _ he', hgateway'⟩

lemma tracks_start (opts : BuildOptions) : Tracks (some { opts := opts }) fun _ _ => none :=
  ⟨_, rfl, fun _ _ _ => rfl⟩

/-- The index of a replica that only publishes has the entries it is to have, and those of the
leader, exactly when no WAF has moved away from Envoy Gateway without being deleted. -/
theorem indexes_agree_iff {es : List WafEvent} {r : Replicas}
    (h : runEvents (Replicas.step op wasmCodeClusterHostPort buildOpts) es
      (Replicas.start buildOpts) = some r) :
    (∀ ns name, PlainNames ns name →
      r.syncEntry ns name = expectedEntry op buildOpts es ns name ∧
      r.syncEntry ns name = r.leaderEntry ns name) ↔
    ∀ ns name, PlainNames ns name → NotMovedAway buildOpts es ns name := by
  obtain ⟨⟨s, hs, hsync⟩, ⟨l, hl, hleader⟩, hbuilt⟩ :=
    tracks_run (tracks_start buildOpts) (tracks_start buildOpts) h
  refine forall_congr' fun ns => forall_congr' fun name => imp_congr_right fun hplain => ?_
  have hsyncEntry : r.syncEntry ns name = es.foldl (syncUpdate op buildOpts ns name) none := by
    rw [Replicas.syncEntry, hs, Option.bind_some, hsync ns name hplain]
  have hleaderEntry : r.leaderEntry ns name = expectedEntry op buildOpts es ns name := by
    rw [Replicas.leaderEntry, hl, Option.bind_some, hleader ns name hplain]
    exact foldl_leaderUpdate ns name es
  have hbuilds : ∀ e ∈ buildsSinceDeletion ns name es, (e.portable op buildOpts).isSome := by
    intro e he
    have hmem := mem_reverse.mp (takeWhile_sublist _ |>.subset he)
    exact hbuilt e (mem_of_mem_filter hmem)
      (by simpa using mem_takeWhile_imp he)
  rw [hsyncEntry, hleaderEntry, and_self, foldl_syncUpdate, expectedEntry_eq]
  exact find_eq_head_iff hbuilds

end Histories

/-! ## A WAF that moves to Istio -/

def plainHostPort : String → Option (String × ℕ) := fun _ => some ("kubewaf", 80)

/-- A change of the WAF `shop/waf` to a provider. -/
def providerEvent (provider : Provider) : WafEvent where
  waf := { ns := "shop", name := "waf", provider := some { type := .known provider } }
  reads := plainReads

def movedIn : List WafEvent := [providerEvent .istio, providerEvent .envoyGateway]

/-- Both replicas have the entry of a WAF that has moved to Envoy Gateway. -/
theorem indexes_agree_movedIn :
    ∃ r, runEvents (Replicas.step plainOperator plainHostPort plainOptions) movedIn
        (Replicas.start plainOptions) = some r ∧
      ∀ ns name, PlainNames ns name →
        r.syncEntry ns name = expectedEntry plainOperator plainOptions movedIn ns name ∧
        r.syncEntry ns name = r.leaderEntry ns name := by
  have hrun : (runEvents (Replicas.step plainOperator plainHostPort plainOptions) movedIn
      (Replicas.start plainOptions)).isSome := by
    decide +kernel
  obtain ⟨r, hr⟩ := Option.isSome_iff_exists.mp hrun
  refine ⟨r, hr, (indexes_agree_iff hr).mpr fun ns name _ => ?_⟩
  have hbuilds : buildsSinceDeletion ns name movedIn = [] ∨
      (buildsSinceDeletion ns name movedIn).head? = some (providerEvent .envoyGateway) := by
    by_cases hfor : "shop" = ns ∧ "waf" = name
    · right
      rw [← hfor.1, ← hfor.2]
      rfl
    · left
      have hnot : ∀ e ∈ movedIn, ¬e.isFor ns name = true := by
        intro e he hfor'
        rcases mem_pair.mp he with rfl | rfl
        · exact hfor (isFor_iff.mp hfor')
        · exact hfor (isFor_iff.mp hfor')
      rw [buildsSinceDeletion, filter_eq_nil_iff.mpr hnot]
      rfl
  rcases hbuilds with hnil | hhead
  · rintro ⟨e, he, _⟩
    rw [hnil] at he
    cases he
  · exact fun _ => ⟨_, hhead, by decide⟩

def movedAway : List WafEvent := [providerEvent .envoyGateway, providerEvent .istio]

/-- Behind the change to Istio the other replica still has the entry that the leader deletes. -/
theorem movedAway_stale :
    ∃ r, runEvents (Replicas.step plainOperator plainHostPort plainOptions) movedAway
        (Replicas.start plainOptions) = some r ∧
      PlainNames "shop" "waf" ∧
      expectedEntry plainOperator plainOptions movedAway "shop" "waf" = none ∧
      r.leaderEntry "shop" "waf" = none ∧
      r.syncEntry "shop" "waf" ≠ none := by
  have hrun : (runEvents (Replicas.step plainOperator plainHostPort plainOptions) movedAway
      (Replicas.start plainOptions)).map (fun r =>
        (expectedEntry plainOperator plainOptions movedAway "shop" "waf" == none,
          r.leaderEntry "shop" "waf" == none, r.syncEntry "shop" "waf" == none))
      = some (true, true, false) := by
    decide +kernel
  obtain ⟨r, hr, hentries⟩ := Option.map_eq_some_iff.mp hrun
  simp only [Prod.mk.injEq, beq_iff_eq, beq_eq_false_iff_ne] at hentries
  exact ⟨r, hr, by decide, hentries⟩

end KubeWaf.Dataplane
