import KubeWaf.Dataplane.Pipeline
import Mathlib

/-!
# The resources of the ECDS store

The store keeps the extension configurations of all WAFs in one map, and finds those of a WAF by
the prefix of their names. Here it is compared with what it is for: for every WAF the
configurations of its last successful publish (`published`), until it is dropped. No history of
publishes and drops, with any failures in between, tells them apart (`ecdsStore_refines`).
-/

namespace KubeWaf.Dataplane

open Lib List

variable {tecs : List TypedExtensionConfig} {waf : WAF} {opts : BuildOptions} {reads : ClusterReads}
  {s s' : EcdsServer} {m : PublishedConfigs} {urlScheme : String → Except String String}
  {n : String}

/-! ## Names -/

lemma extensionName_toList (ns name : String) :
    (extensionName ns name).toList
      = "kubewaf".toList ++ '/' :: (ns.toList ++ '/' :: name.toList) := by
  simp [extensionName]

lemma exists_of_belongsTo {ext name : String} (h : belongsTo ext name = true) :
    ∃ rest, name.toList ++ ['/'] = ext.toList ++ '/' :: rest := by
  rw [belongsTo, Bool.or_eq_true] at h
  rcases h with h | h
  · exact ⟨[], by rw [of_decide_eq_true h]⟩
  · obtain ⟨t, ht⟩ := isPrefixOf_iff_prefix.mp h
    refine ⟨t ++ ['/'], ?_⟩
    rw [← ht]
    simp

lemma belongsTo_inj {ns name ns' name' : String} (h : PlainNames ns name)
    (h' : PlainNames ns' name') (hn : belongsTo (extensionName ns name) n = true)
    (hn' : belongsTo (extensionName ns' name') n = true) : ns = ns' ∧ name = name' := by
  obtain ⟨rest, hrest⟩ := exists_of_belongsTo hn
  obtain ⟨rest', hrest'⟩ := exists_of_belongsTo hn'
  rw [hrest, extensionName_toList, extensionName_toList, append_assoc, append_assoc,
    append_cancel_left_eq, cons_append, cons_append, List.cons.injEq,
    append_assoc, append_assoc, cons_append, cons_append,
    Go.append_sep_inj h.ns_slash h'.ns_slash, Go.append_sep_inj h.name_slash h'.name_slash]
    at hrest'
  exact ⟨String.toList_inj.mp hrest'.2.1, String.toList_inj.mp hrest'.2.2.1⟩

lemma belongsTo_extensionName (ns name : String) :
    belongsTo (extensionName ns name) (extensionName ns name) = true := by
  simp [belongsTo]

lemma belongsTo_challenge (ns name : String) :
    belongsTo (extensionName ns name) (challengeExtensionName ns name) = true := by
  have happend : (challengeExtensionName ns name).toList =
      (extensionName ns name ++ "/").toList ++ "challenge".toList := by
    simp [challengeExtensionName, extensionName]
  rw [belongsTo, Bool.or_eq_true, happend]
  exact .inr (List.isPrefixOf_iff_prefix.mpr (prefix_append _ _))

lemma challengeExtensionName_ne (ns name : String) :
    challengeExtensionName ns name ≠ extensionName ns name := by
  intro h
  have hlength := congrArg String.length h
  simp [challengeExtensionName, extensionName] at hlength

/-! ## Extension configurations of a WAF -/

lemma buildOne_name {wasmCluster : String} {f : PortableFilter} {tec : TypedExtensionConfig}
    (h : buildOne urlScheme wasmCluster f = .ok tec) : tec.name = f.extensionName := by
  rw [buildOne] at h
  split_ifs at h
  obtain ⟨_, _, rfl⟩ := map_eq_ok.mp h
  rfl

lemma buildTypedExtensionConfigs_names {p : PortableConfig}
    (h : buildTypedExtensionConfigs urlScheme p = .ok tecs) :
    tecs.map (·.name) = (ecdsFilters p).map (·.extensionName) := by
  have hnames : ∀ fs tecs, List.Forall₂ (fun f tec =>
      buildFilter urlScheme (wasmFetchCluster p) f = .ok tec) fs tecs →
      tecs.map (·.name) = fs.map (·.extensionName) := by
    intro fs tecs hall
    induction hall with
    | nil => rfl
    | cons hf _ ih =>
      rw [map_cons, map_cons, ih, buildOne_name (mapError_eq_ok.mp hf)]
  exact hnames _ _ (mapM_eq_ok.mp h)

/-- The names of the extension configurations of a WAF: those of the challenge, where it has one,
and of the engine. -/
def wafExtensionNames (waf : WAF) : List String :=
  (if challengeEnabled waf.challenge then [challengeExtensionName waf.ns waf.name] else [])
    ++ [extensionName waf.ns waf.name]

lemma challengeFilters_names {challenge : List PortableFilter}
    (h : challengeFilters waf opts = .ok challenge) :
    challenge.map (·.extensionName) =
      if challengeEnabled waf.challenge then [challengeExtensionName waf.ns waf.name] else [] := by
  rw [challengeFilters] at h
  split_ifs at h with henabled
  · obtain ⟨f, hf, rfl⟩ := map_eq_ok.mp h
    rw [if_pos henabled, map_singleton]
    rw [buildChallengeFilter] at hf
    split at hf
    · cases hf
    · dsimp only at hf
      split_ifs at hf
      rw [← Except.ok.inj hf]
  · rw [if_neg henabled, ← Except.ok.inj h, map_nil]

lemma BuiltFrom.names {gzip : Gzip} {crs : DataFiles.CrsData}
    {sha256Hex : DataFiles.Bytes → String} {p : PortableConfig}
    (b : BuiltFrom gzip crs sha256Hex waf reads opts p) :
    p.extensionName = extensionName waf.ns waf.name ∧
      (ecdsFilters p).map (·.extensionName) = wafExtensionNames waf := by
  obtain ⟨challenge, hchallenge, hp⟩ := buildFromWAF_eq_ok b.built
  have hfilters : ecdsFilters p = p.filters := by
    rw [← hp]
    exact if_neg (append_ne_nil_of_right_ne_nil _ (cons_ne_nil _ _))
  rw [hfilters, ← hp]
  refine ⟨rfl, ?_⟩
  show (challenge ++ [_]).map PortableFilter.extensionName = _
  rw [map_append, challengeFilters_names hchallenge]
  rfl

lemma nodup_wafExtensionNames (waf : WAF) : (wafExtensionNames waf).Nodup := by
  rw [wafExtensionNames]
  split_ifs
  · simp [challengeExtensionName_ne]
  · simp

lemma belongsTo_of_mem_wafExtensionNames (h : n ∈ wafExtensionNames waf) :
    belongsTo (extensionName waf.ns waf.name) n = true := by
  rcases mem_append.mp h with h | h
  · split_ifs at h
    · rw [mem_singleton.mp h]
      exact belongsTo_challenge _ _
    · cases h
  · rw [mem_singleton.mp h]
    exact belongsTo_extensionName _ _

/-! ## Histories -/

/-- A call on the stores of a replica: a WAF is built and published, with what `Build` reads, or
it is dropped. -/
inductive StoreCall where
  | publish (waf : WAF) (reads : ClusterReads) (opts : BuildOptions) (requireRefsOK : Bool)
  | drop (ns name : String)

def StoreCall.ns : StoreCall → String
  | .publish waf _ _ _ => waf.ns
  | .drop ns _ => ns

def StoreCall.name : StoreCall → String
  | .publish waf _ _ _ => waf.name
  | .drop _ name => name

/-- A call for a WAF with plain names. -/
abbrev PlainCall := { c : StoreCall // PlainNames c.ns c.name }

section Histories

variable (op : Operator)

/-- The stores behind a call, and its error. -/
def StoreCall.run (pubs : Publishers) : StoreCall → Publishers × Option String
  | .publish waf reads opts requireRefsOK =>
    op.buildAndPublish waf reads pubs { buildOpts := opts, requireRefsOK := requireRefsOK }
  | .drop ns name => (dropLocal ns name pubs, none)

/-- The extension configurations that a call publishes; `none` where `Build` fails, a reference
does not resolve, or a configuration cannot be built. -/
def StoreCall.publishes : StoreCall → Option (List TypedExtensionConfig)
  | .publish waf reads opts requireRefsOK =>
    match op.build waf reads { buildOpts := opts, requireRefsOK := requireRefsOK } with
    | .error _ => none
    | .ok res =>
      if res.referenceErrors ≠ [] then none
      else (buildTypedExtensionConfigs op.urlScheme res.portable).toOption
  | .drop _ _ => none

/-- What the store is for: the extension configurations of every WAF. -/
abbrev PublishedConfigs := String → String → Option (List TypedExtensionConfig)

/-- A call changes the configurations of its own WAF: a successful publish sets them, a drop
removes them, and a failed publish leaves them. -/
def PublishedConfigs.after (m : PublishedConfigs) (c : StoreCall) : PublishedConfigs :=
  fun ns name =>
    if c.ns = ns ∧ c.name = name then
      match c with
      | .publish _ _ _ _ => (c.publishes op).or (m ns name)
      | .drop _ _ => none
    else m ns name

/-- The configurations of the last successful publish of every WAF that is not dropped since. -/
def published (calls : List PlainCall) : PublishedConfigs :=
  calls.foldl (fun m c => m.after op c.1) fun _ _ => none

/-- The stores behind a history. -/
def storesAfter (eg : Option ExtensionServer) (calls : List PlainCall) : Publishers :=
  calls.foldl (fun pubs c => (c.1.run op pubs).1) { ecds := some .new, egExtension := eg }

/-! ## One call -/

variable {op} {name ns : String} {eg : Option ExtensionServer} {requireRefsOK : Bool}

lemma publishes_names
    (h : (StoreCall.publish waf reads opts requireRefsOK).publishes op = some tecs) :
    tecs.map (·.name) = wafExtensionNames waf := by
  rw [StoreCall.publishes] at h
  split at h
  · cases h
  · rename_i res hres
    split_ifs at h
    obtain ⟨b⟩ := buildPortable_eq_ok (build_eq_ok_iff.mp hres).2.2
    cases htecs : buildTypedExtensionConfigs op.urlScheme res.portable with
    | error e =>
      rw [htecs] at h
      cases h
    | ok tecs' =>
      rw [htecs] at h
      rw [← Option.some.inj h, buildTypedExtensionConfigs_names htecs, b.names.2]

lemma run_publish_ecds (s : EcdsServer) (eg : Option ExtensionServer) (waf : WAF)
    (reads : ClusterReads) (opts : BuildOptions) (requireRefsOK : Bool) :
    ((StoreCall.publish waf reads opts requireRefsOK).run op ⟨some s, eg⟩).1.ecds =
      match (StoreCall.publish waf reads opts requireRefsOK).publishes op with
      | none => some s
      | some tecs => some (s.replace (extensionName waf.ns waf.name) tecs) := by
  rw [StoreCall.run, Operator.buildAndPublish, StoreCall.publishes]
  cases hres : op.build waf reads { buildOpts := opts, requireRefsOK := requireRefsOK } with
  | error e => rfl
  | ok res =>
    obtain ⟨b⟩ := buildPortable_eq_ok (build_eq_ok_iff.mp hres).2.2
    by_cases hrefs : res.referenceErrors = []
    · simp only [hrefs, ne_eq, not_true_eq_false, if_false, publish, publishECDS,
        Bool.false_eq_true, EcdsServer.upsert]
      cases htecs : buildTypedExtensionConfigs op.urlScheme res.portable with
      | error e => rfl
      | ok tecs =>
        rw [← b.names.1]
        rfl
    · simp [hrefs]

lemma delete_lookup (s : EcdsServer) (ext n : String) :
    (s.delete ext).resources.lookup n =
      if belongsTo ext n then none else s.resources.lookup n := by
  rw [EcdsServer.delete]
  by_cases hany : s.resources.keys.any (belongsTo ext) = true
  · rw [if_pos hany]
    exact GoMap.lookup_deleteWhere (belongsTo ext) s.resources n
  · rw [if_neg hany]
    by_cases hn : belongsTo ext n = true
    · rw [if_pos hn, AList.lookup_eq_none]
      exact fun hmem => hany (any_eq_true.mpr ⟨n, hmem, hn⟩)
    · rw [if_neg hn]

/-! ## Whole histories -/

/-- The resources of a server are the published configurations, and its snapshot has them. -/
structure Holds (s : EcdsServer) (m : PublishedConfigs) : Prop where
  resources : ∀ n tec, s.resources.lookup n = some tec ↔
    ∃ ns name tecs, PlainNames ns name ∧ m ns name = some tecs ∧ tec ∈ tecs ∧ tec.name = n
  names : ∀ ns name tecs, m ns name = some tecs →
    ∀ tec ∈ tecs, belongsTo (extensionName ns name) tec.name = true
  snapshot : s.snapshot = some { version := s.version, resources := s.resources }

lemma holds_new : Holds .new fun _ _ => none where
  resources n tec := by
    constructor
    · intro h
      cases h
    · rintro ⟨_, _, _, _, h, _⟩
      cases h
  names _ _ _ h := by cases h
  snapshot := rfl

lemma Holds.others (h : Holds s m) (hplain : PlainNames ns name) (n : String)
    (tec : TypedExtensionConfig) :
    (belongsTo (extensionName ns name) n = false ∧ s.resources.lookup n = some tec) ↔
      ∃ ns' name' tecs, PlainNames ns' name' ∧ ¬(ns = ns' ∧ name = name') ∧
        m ns' name' = some tecs ∧ tec ∈ tecs ∧ tec.name = n := by
  rw [h.resources]
  constructor
  · rintro ⟨hn, ns', name', tecs, hplain', hm, hmem, hname⟩
    refine ⟨ns', name', tecs, hplain', ?_, hm, hmem, hname⟩
    rintro ⟨rfl, rfl⟩
    have hown := h.names _ _ _ hm tec hmem
    rw [hname, hn] at hown
    cases hown
  · rintro ⟨ns', name', tecs, hplain', hne, hm, hmem, hname⟩
    refine ⟨?_, ns', name', tecs, hplain', hm, hmem, hname⟩
    by_contra hn
    have hown := h.names _ _ _ hm tec hmem
    rw [hname] at hown
    exact hne (belongsTo_inj hplain hplain' (Bool.eq_true_of_not_eq_false hn) hown)

lemma Holds.update {s' : EcdsServer} {e : Option (List TypedExtensionConfig)} (h : Holds s m)
    (hplain : PlainNames ns name)
    (hnames : ∀ tecs, e = some tecs → ∀ tec ∈ tecs,
      belongsTo (extensionName ns name) tec.name = true)
    (hlookup : ∀ n tec, s'.resources.lookup n = some tec ↔
      (∃ tecs, e = some tecs ∧ tec ∈ tecs ∧ tec.name = n) ∨
        belongsTo (extensionName ns name) n = false ∧ s.resources.lookup n = some tec)
    (hsnapshot : s'.snapshot = some { version := s'.version, resources := s'.resources }) :
    Holds s' fun ns' name' => if ns = ns' ∧ name = name' then e else m ns' name' where
  resources n tec := by
    rw [hlookup, h.others hplain]
    constructor
    · rintro (⟨tecs, he, hmem⟩ | ⟨ns', name', tecs', hplain', hne, hm, hmem⟩)
      · exact ⟨ns, name, tecs, hplain, (if_pos ⟨rfl, rfl⟩).trans he, hmem⟩
      · exact ⟨ns', name', tecs', hplain', (if_neg hne).trans hm, hmem⟩
    · rintro ⟨ns', name', tecs', hplain', hm, hmem⟩
      split_ifs at hm with hkey
      · exact .inl ⟨tecs', hm, hmem⟩
      · exact .inr ⟨ns', name', tecs', hplain', hkey, hm, hmem⟩
  names ns' name' tecs' hm := by
    split_ifs at hm with hkey
    · obtain ⟨rfl, rfl⟩ := hkey
      exact hnames tecs' hm
    · exact h.names ns' name' tecs' hm
  snapshot := hsnapshot

lemma Holds.replace (h : Holds s m) (hplain : PlainNames ns name)
    (hnodup : (tecs.map (·.name)).Nodup)
    (hnames : ∀ tec ∈ tecs, belongsTo (extensionName ns name) tec.name = true) :
    Holds (s.replace (extensionName ns name) tecs)
      fun ns' name' => if ns = ns' ∧ name = name' then some tecs else m ns' name' := by
  refine h.update hplain (fun _ he => Option.some.inj he ▸ hnames) (fun n tec => ?_) rfl
  show (putAll (s.resources.deleteWhere (belongsTo (extensionName ns name))) tecs).lookup n
    = some tec ↔ _
  rw [putAll, GoMap.lookup_foldl_insert TypedExtensionConfig.name hnodup, GoMap.lookup_deleteWhere]
  cases hn : belongsTo (extensionName ns name) n with
  | true => simp
  | false =>
    have hother : n ∉ tecs.map (·.name) := by
      intro hc
      obtain ⟨tec', hmem', rfl⟩ := mem_map.mp hc
      exact absurd (hnames tec' hmem') (by rw [hn]; decide)
    simp [hother]

lemma Holds.delete (h : Holds s m) (hplain : PlainNames ns name) :
    Holds (s.delete (extensionName ns name))
      fun ns' name' => if ns = ns' ∧ name = name' then none else m ns' name' := by
  refine h.update hplain (fun _ he => by cases he) (fun n tec => ?_) ?_
  · rw [delete_lookup]
    cases belongsTo (extensionName ns name) n with
    | true => simp
    | false => simp
  · rw [EcdsServer.delete]
    split_ifs
    · rfl
    · exact h.snapshot

lemma run_ecds (op : Operator) (s : EcdsServer) (eg : Option ExtensionServer) (c : StoreCall) :
    (c.run op ⟨some s, eg⟩).1.ecds = some (match c with
      | .publish waf _ _ _ =>
        match c.publishes op with
        | none => s
        | some tecs => s.replace (extensionName waf.ns waf.name) tecs
      | .drop ns name => s.delete (extensionName ns name)) := by
  cases c with
  | drop ns name => rfl
  | publish waf reads opts requireRefsOK =>
    rw [run_publish_ecds]
    cases (StoreCall.publish waf reads opts requireRefsOK).publishes op with
    | none => rfl
    | some tecs => rfl

lemma Holds.call (h : Holds s m) (eg : Option ExtensionServer) (c : PlainCall) :
    ∃ s', (c.1.run op ⟨some s, eg⟩).1.ecds = some s' ∧ Holds s' (m.after op c.1) := by
  obtain ⟨c, hplain⟩ := c
  refine ⟨_, run_ecds op s eg c, ?_⟩
  cases c with
  | drop ns name => exact h.delete hplain
  | publish waf reads opts requireRefsOK =>
    cases htecs : (StoreCall.publish waf reads opts requireRefsOK).publishes op with
    | none =>
      have hsame : m.after op (.publish waf reads opts requireRefsOK) = m := by
        funext ns name
        simp [PublishedConfigs.after, htecs]
      rw [hsame]
      simpa only [htecs] using h
    | some tecs =>
      have hnew : m.after op (.publish waf reads opts requireRefsOK) = fun ns' name' =>
          if waf.ns = ns' ∧ waf.name = name' then some tecs else m ns' name' := by
        funext ns name
        simp [PublishedConfigs.after, htecs, StoreCall.ns, StoreCall.name]
      have hnames := publishes_names htecs
      rw [hnew]
      refine h.replace hplain (hnames ▸ nodup_wafExtensionNames waf) fun tec htec => ?_
      exact belongsTo_of_mem_wafExtensionNames (hnames ▸ mem_map_of_mem htec)

lemma holds_storesAfter (op : Operator) (eg : Option ExtensionServer)
    (calls : List PlainCall) :
    ∃ s, (storesAfter op eg calls).ecds = some s ∧ Holds s (published op calls) := by
  induction calls using List.reverseRecOn with
  | nil => exact ⟨_, rfl, holds_new⟩
  | append_singleton calls c ih =>
    obtain ⟨s, hs, hholds⟩ := ih
    obtain ⟨s', hs', hholds'⟩ := hholds.call (storesAfter op eg calls).egExtension c
    refine ⟨s', ?_, ?_⟩
    · rw [storesAfter, foldl_concat, ← hs', ← hs]
      rfl
    · rw [published, foldl_concat]
      exact hholds'

/-! ## The store -/

/-- What holds of the store behind a history. -/
structure StoreCorrect (op : Operator) (calls : List PlainCall) (s : EcdsServer) : Prop where
  /-- The map has the configurations of the last successful publish of each WAF, and no others. -/
  resources : ∀ n tec, s.resources.lookup n = some tec ↔
    ∃ ns name tecs, PlainNames ns name ∧ published op calls ns name = some tecs ∧ tec ∈ tecs ∧
      tec.name = n
  /-- The snapshot that is served has the map. -/
  snapshot : s.snapshot = some { version := s.version, resources := s.resources }
  /-- A further call leaves the entries of every other WAF. -/
  isolated : ∀ (c : PlainCall) (eg : Option ExtensionServer) (s' : EcdsServer),
    (c.1.run op ⟨some s, eg⟩).1.ecds = some s' →
    ∀ ns name, PlainNames ns name → ¬(c.1.ns = ns ∧ c.1.name = name) →
    ∀ n, belongsTo (extensionName ns name) n = true →
      s'.resources.lookup n = s.resources.lookup n
  /-- A further call sets no snapshot, or one with a higher version unless the counter is at its
  end. -/
  version : ∀ (c : StoreCall) (eg : Option ExtensionServer) (s' : EcdsServer),
    (c.run op ⟨some s, eg⟩).1.ecds = some s' →
    s' = s ∨ (s'.snapshot = some { version := s'.version, resources := s'.resources } ∧
      (s.version.toNat ≠ 2 ^ 64 - 1 → s.version < s'.version))
  /-- A publish that fails leaves the entries and the snapshot. -/
  failed : ∀ (waf : WAF) (reads : ClusterReads) (opts : BuildOptions) (requireRefsOK : Bool)
    (eg : Option ExtensionServer),
    ((∃ e, op.build waf reads { buildOpts := opts, requireRefsOK := requireRefsOK } = .error e) ∨
      ∃ res, op.build waf reads { buildOpts := opts, requireRefsOK := requireRefsOK } = .ok res ∧
        (res.referenceErrors ≠ [] ∨
          ∃ e, buildTypedExtensionConfigs op.urlScheme res.portable = .error e)) →
    ((StoreCall.publish waf reads opts requireRefsOK).run op ⟨some s, eg⟩).1.ecds = some s

lemma lt_publishLocked (hversion : s'.version = s.version) (h : s.version.toNat ≠ 2 ^ 64 - 1) :
    s.version < s'.publishLocked.version := by
  show s.version < s'.version + 1
  rw [hversion, UInt64.lt_iff_toNat_lt, UInt64.toNat_add]
  have hlt := s.version.toNat_lt
  have hone : (1 : UInt64).toNat = 1 := rfl
  rw [hone, Nat.mod_eq_of_lt (by omega)]
  omega

lemma isolated_of_holds (h : Holds s m) (c : PlainCall)
    (hs' : (c.1.run op ⟨some s, eg⟩).1.ecds = some s') (hplain : PlainNames ns name)
    (hne : ¬(c.1.ns = ns ∧ c.1.name = name)) (hn : belongsTo (extensionName ns name) n = true) :
    s'.resources.lookup n = s.resources.lookup n := by
  obtain ⟨s₁, hs₁, hholds⟩ := h.call eg c
  obtain rfl : s₁ = s' := Option.some.inj (hs₁.symm.trans hs')
  -- an entry of that name is published by its own WAF, behind the call as before it
  have howner : ∀ {m' : PublishedConfigs} {s'' : EcdsServer}, Holds s'' m' → ∀ tec,
      s''.resources.lookup n = some tec ↔
        ∃ tecs, m' ns name = some tecs ∧ tec ∈ tecs ∧ tec.name = n := by
    intro m' s'' hm' tec
    rw [hm'.resources]
    constructor
    · rintro ⟨ns', name', tecs, hplain', hm, hmem, hname⟩
      have hown := hm'.names ns' name' tecs hm tec hmem
      rw [hname] at hown
      obtain ⟨rfl, rfl⟩ := belongsTo_inj hplain' hplain hown hn
      exact ⟨tecs, hm, hmem, hname⟩
    · rintro ⟨tecs, hm, hmem⟩
      exact ⟨ns, name, tecs, hplain, hm, hmem⟩
  apply Option.ext
  intro tec
  have hsame : m.after op c.1 ns name = m ns name := if_neg hne
  rw [howner hholds, howner h, hsame]

lemma version_of_run {c : StoreCall} (hs' : (c.run op ⟨some s, eg⟩).1.ecds = some s') :
    s' = s ∨ (s'.snapshot = some { version := s'.version, resources := s'.resources } ∧
      (s.version.toNat ≠ 2 ^ 64 - 1 → s.version < s'.version)) := by
  rw [run_ecds] at hs'
  cases c with
  | drop ns name =>
    cases hs'
    simp only [EcdsServer.delete]
    split_ifs
    · exact .inr ⟨rfl, lt_publishLocked rfl⟩
    · exact .inl rfl
  | publish waf reads opts requireRefsOK =>
    cases hs'
    cases htecs : (StoreCall.publish waf reads opts requireRefsOK).publishes op with
    | none => exact .inl rfl
    | some tecs => exact .inr ⟨rfl, lt_publishLocked rfl⟩

lemma publishes_eq_none
    (h : (∃ e, op.build waf reads { buildOpts := opts, requireRefsOK := requireRefsOK } =
        .error e) ∨
      ∃ res, op.build waf reads { buildOpts := opts, requireRefsOK := requireRefsOK } = .ok res ∧
        (res.referenceErrors ≠ [] ∨
          ∃ e, buildTypedExtensionConfigs op.urlScheme res.portable = .error e)) :
    (StoreCall.publish waf reads opts requireRefsOK).publishes op = none := by
  rw [StoreCall.publishes]
  rcases h with ⟨e, he⟩ | ⟨res, hres, hrefs | ⟨e, he⟩⟩
  · rw [he]
  · simp [hres, if_pos hrefs]
  · simp only [hres, he]
    split_ifs
    · rfl
    · rfl

/-- Along every history of publishes and drops, whatever fails, the store is correct, and each
WAF's configurations are those of its engine and, where enabled, of its challenge. -/
theorem ecdsStore_refines (op : Operator) (eg : Option ExtensionServer)
    (calls : List PlainCall) :
    (∃ s, (storesAfter op eg calls).ecds = some s ∧ StoreCorrect op calls s) ∧
    ∀ waf reads opts requireRefsOK tecs,
      (StoreCall.publish waf reads opts requireRefsOK).publishes op = some tecs →
      tecs.map (·.name) = wafExtensionNames waf := by
  obtain ⟨s, hs, hholds⟩ := holds_storesAfter op eg calls
  refine ⟨⟨s, hs, ?_⟩, fun waf reads opts requireRefsOK tecs => publishes_names⟩
  exact
    { resources := hholds.resources
      snapshot := hholds.snapshot
      isolated := fun c eg s' hs' ns name hplain hne n hn =>
        isolated_of_holds hholds c hs' hplain hne hn
      version := fun c eg s' hs' => version_of_run hs'
      failed := by
        intro waf reads opts requireRefsOK eg hfail
        rw [run_publish_ecds, publishes_eq_none hfail] }

end Histories

/-! ## The end of the counter -/

/-- A publish of the WAF `shop/waf` that succeeds. -/
def plainPublish : PlainCall :=
  ⟨.publish { ns := "shop", name := "waf" } plainReads plainOptions true, by decide⟩

lemma version_replicate (n : ℕ) :
    ∃ s, (storesAfter plainOperator none (List.replicate n plainPublish)).ecds = some s ∧
      s.version = UInt64.ofNat (n + 1) := by
  have hsome : (plainPublish.1.publishes plainOperator).isSome := by decide +kernel
  obtain ⟨tecs, htecs⟩ := Option.isSome_iff_exists.mp hsome
  induction n with
  | zero => exact ⟨_, rfl, rfl⟩
  | succ n ih =>
    obtain ⟨s, hs, hversion⟩ := ih
    have hrun := run_ecds plainOperator s
      (storesAfter plainOperator none (List.replicate n plainPublish)).egExtension plainPublish.1
    rw [← hs] at hrun
    refine ⟨s.replace (extensionName "shop" "waf") tecs, ?_, ?_⟩
    · rw [storesAfter, replicate_succ', foldl_concat]
      refine hrun.trans ?_
      rw [htecs]
      rfl
    · show s.version + 1 = _
      rw [hversion, UInt64.ofNat_add (n + 1) 1]
      rfl

/-- The version is 64 bits wide: the publish behind `2 ^ 64 - 1` snapshots sets one with the
version `0`. -/
theorem version_wraps :
    ∃ (calls : List PlainCall) (c : PlainCall) (s s' : EcdsServer),
      (storesAfter plainOperator none calls).ecds = some s ∧
      (storesAfter plainOperator none (calls ++ [c])).ecds = some s' ∧
      s'.snapshot ≠ s.snapshot ∧ s'.version < s.version := by
  obtain ⟨s, hs, hversion⟩ := version_replicate (2 ^ 64 - 2)
  obtain ⟨s', hs', hversion'⟩ := version_replicate (2 ^ 64 - 2 + 1)
  refine ⟨List.replicate (2 ^ 64 - 2) plainPublish, plainPublish, s, s', hs, ?_, ?_, ?_⟩
  · rw [← replicate_succ']
    exact hs'
  · obtain ⟨t, ht, hholds⟩ := holds_storesAfter plainOperator none
      (List.replicate (2 ^ 64 - 2) plainPublish)
    obtain ⟨t', ht', hholds'⟩ := holds_storesAfter plainOperator none
      (List.replicate (2 ^ 64 - 2 + 1) plainPublish)
    obtain rfl : t = s := Option.some.inj (ht.symm.trans hs)
    obtain rfl : t' = s' := Option.some.inj (ht'.symm.trans hs')
    rw [hholds.snapshot, hholds'.snapshot]
    intro heq
    have hsame : t'.version = t.version := congrArg Snapshot.version (Option.some.inj heq)
    rw [hversion, hversion'] at hsame
    exact absurd hsame (by decide)
  · rw [hversion, hversion']
    decide

end KubeWaf.Dataplane
