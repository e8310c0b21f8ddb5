import KubeWaf.Dataplane.FilterOrder

/-!
# Injecting into a chain that was injected before

`injectIntoFilterChain` skips the stubs whose name a connection manager has already, and puts the
others in front of its router. The filters that were there keep their order, each missing stub is
added once, and a second call changes nothing. But a challenge that is added to a chain with its
engine comes behind the engine (`inject_correct_iff`).
-/

namespace KubeWaf.Dataplane

open Lib List

/-- The connection manager that `injectIntoFilterChain` works on. -/
def chainManager (fc : List NetworkFilter) : Option HttpConnectionManager :=
  fc.findSome? (·.manager)

def HttpConnectionManager.names (mgr : HttpConnectionManager) : List String :=
  mgr.httpFilters.map (·.name)

/-- The names in front of the router. -/
def HttpConnectionManager.ahead (mgr : HttpConnectionManager) : List String :=
  (mgr.httpFilters.takeWhile (!isRouter ·)).map (·.name)

def stubNames (cfgs : List PortableConfig) : List String :=
  (cfgs.flatMap makeECDSFilterStubs).map (·.name)

/-- What an injection is to make of a connection manager. -/
structure Injected (cfgs : List PortableConfig) (before after : HttpConnectionManager) : Prop where
  kept : before.httpFilters.Sublist after.httpFilters
  once : after.names.Nodup
  added : ∀ name, name ∈ after.names ↔ name ∈ before.names ∨ name ∈ stubNames cfgs
  stubs : ∀ f ∈ after.httpFilters, f ∉ before.httpFilters →
    f ∈ cfgs.flatMap makeECDSFilterStubs ∧
      ∀ r ∈ before.httpFilters, isRouter r = true → [f, r].Sublist after.httpFilters
  ordered : ∀ p ∈ cfgs, ∀ c ∈ p.filters, c.role = .challenge → ∀ w ∈ p.filters, w.role = .waf →
    [c.extensionName, w.extensionName].Sublist after.names
  accessLog : after.accessLog = before.accessLog ∨ hasOTelAccessLog before = false ∧
    after.accessLog = before.accessLog ++ [.openTelemetry otelAccessLogStatPrefix defaultOTelCluster]

/-- The filter `c` comes to stand in front of the filter `w` of the same configuration: both are
there in that order, or one of them is there on the right side of the place in front of the router,
or none is and the stub of `c` is the first one to be added. -/
def ComesFirst (mgr : HttpConnectionManager) (cfgs : List PortableConfig) (c w : String) : Prop :=
  if w ∈ mgr.names then [c, w].Sublist mgr.names ∨ (c ∉ mgr.names ∧ w ∉ mgr.ahead)
  else c ∈ mgr.ahead ∨
    (c ∉ mgr.names ∧ (stubNames cfgs).idxOf c < (stubNames cfgs).idxOf w)

instance (mgr : HttpConnectionManager) (cfgs : List PortableConfig) (c w : String) :
    Decidable (ComesFirst mgr cfgs c w) :=
  inferInstanceAs (Decidable (ite _ _ _))

/-! ## The stubs that are missing -/

section
variable {existing : List String} {stubs : List HttpFilter} {c w : String}

lemma mem_names_toInsert {name : String} :
    name ∈ (toInsert existing stubs).map (·.name) ↔ name ∈ stubs.map (·.name) ∧ name ∉ existing := by
  induction stubs generalizing existing with
  | nil => simp [toInsert]
  | cons stub stubs ih =>
    rw [toInsert, map_cons, mem_cons]
    split_ifs with h
    · rw [ih]
      constructor
      · exact fun hname => ⟨.inr hname.1, hname.2⟩
      · exact fun hname => ⟨hname.1.resolve_left fun heq => hname.2 (heq ▸ h), hname.2⟩
    · rw [map_cons, mem_cons, ih, mem_cons, not_or]
      by_cases heq : name = stub.name
      · simp [heq, h]
      · simp [heq]

lemma pair_sublist_toInsert (hc : c ∈ stubs.map (·.name)) (hw : w ∈ stubs.map (·.name))
    (hc' : c ∉ existing) (hw' : w ∉ existing) :
    [c, w].Sublist ((toInsert existing stubs).map (·.name)) ↔
      (stubs.map (·.name)).idxOf c < (stubs.map (·.name)).idxOf w := by
  induction stubs generalizing existing with
  | nil => cases hc
  | cons stub stubs ih =>
    rw [map_cons, mem_cons] at hc hw
    rw [toInsert, map_cons]
    by_cases hstub : stub.name ∈ existing
    · have hne : stub.name ≠ c := fun h => hc' (h ▸ hstub)
      have hne' : stub.name ≠ w := fun h => hw' (h ▸ hstub)
      rw [if_pos hstub, idxOf_cons_ne _ hne, idxOf_cons_ne _ hne', Nat.succ_lt_succ_iff]
      exact ih (hc.resolve_left hne.symm) (hw.resolve_left hne'.symm) hc' hw'
    · rw [if_neg hstub, map_cons, cons_sublist_cons', singleton_sublist,
        mem_names_toInsert, mem_cons, not_or]
      have hfresh : stub.name ∉ (toInsert (stub.name :: existing) stubs).map (·.name) :=
        fun h => (mem_names_toInsert.mp h).2 mem_cons_self
      have hnot : c = stub.name ∨ w = stub.name →
          ¬[c, w].Sublist ((toInsert (stub.name :: existing) stubs).map (·.name)) := by
        rintro (h | h) hsub
        · exact hfresh (h ▸ hsub.subset mem_cons_self)
        · exact hfresh (h ▸ hsub.subset (mem_cons_of_mem _ mem_cons_self))
      by_cases hcs : c = stub.name
      · -- the first stub is that of `c`
        rw [or_iff_right (hnot (.inl hcs))]
        by_cases hws : w = stub.name
        · simp [hcs, hws]
        · rw [hcs, idxOf_cons_self, idxOf_cons_ne _ (Ne.symm hws)]
          simp [hws, hw', hw.resolve_left hws]
      · rw [idxOf_cons_ne _ (Ne.symm hcs)]
        by_cases hws : w = stub.name
        · rw [or_iff_right (hnot (.inr hws)), hws, idxOf_cons_self]
          simp [hcs]
        · rw [idxOf_cons_ne _ (Ne.symm hws), Nat.succ_lt_succ_iff,
            ih (hc.resolve_left hcs) (hw.resolve_left hws) (by simp [hcs, hc'])
              (by simp [hws, hw'])]
          simp [hcs]

end

/-! ## One connection manager -/

section
variable {mgr : HttpConnectionManager} {cfgs : List PortableConfig} {c w : String}

lemma injectIntoManager_httpFilters (hrouter : ∃ r ∈ mgr.httpFilters, isRouter r = true) :
    (injectIntoManager mgr cfgs).httpFilters = mgr.httpFilters.takeWhile (!isRouter ·) ++
      (toInsert mgr.names (cfgs.flatMap makeECDSFilterStubs) ++
        mgr.httpFilters.dropWhile (!isRouter ·)) := by
  rw [injectIntoManager, injectStubs_httpFilters, spliceBefore_eq_some _ hrouter,
    HttpConnectionManager.names]
  split_ifs with hnone
  · rw [hnone, nil_append, takeWhile_append_dropWhile]
  · rfl

lemma injectIntoManager_accessLog :
    (injectIntoManager mgr cfgs).accessLog = if cfgs.any (·.telemetryManaged) then
      (appendOTelAccessLog mgr defaultOTelCluster).accessLog else mgr.accessLog := by
  have hlog : ∀ filters, (appendOTelAccessLog { mgr with httpFilters := filters }
      defaultOTelCluster).accessLog = (appendOTelAccessLog mgr defaultOTelCluster).accessLog := by
    intro filters
    rw [appendOTelAccessLog, appendOTelAccessLog,
      show hasOTelAccessLog { mgr with httpFilters := filters } = hasOTelAccessLog mgr from rfl]
    split_ifs <;> rfl
  rw [injectIntoManager, injectStubs]
  cases cfgs.any (·.telemetryManaged) with
  | false =>
    simp only [Bool.false_eq_true, if_false]
    split_ifs <;> rfl
  | true =>
    simp only [Bool.true_eq_false, false_or, if_true]
    split_ifs with hsame
    · rw [appendOTelAccessLog, if_pos hsame.2]
    · rfl
    · exact hlog _

lemma appendOTelAccessLog_cases (mgr : HttpConnectionManager) :
    hasOTelAccessLog (appendOTelAccessLog mgr defaultOTelCluster) = true ∧
      ((appendOTelAccessLog mgr defaultOTelCluster).accessLog = mgr.accessLog ∨
        hasOTelAccessLog mgr = false ∧ (appendOTelAccessLog mgr defaultOTelCluster).accessLog =
          mgr.accessLog ++ [.openTelemetry otelAccessLogStatPrefix defaultOTelCluster]) := by
  rw [appendOTelAccessLog]
  cases hlog : hasOTelAccessLog mgr with
  | true => exact ⟨hlog, .inl rfl⟩
  | false => exact ⟨by simp [hasOTelAccessLog], .inr ⟨rfl, rfl⟩⟩

lemma injectIntoManager_eq_self (hstubs : ∀ name ∈ stubNames cfgs, name ∈ mgr.names)
    (hlog : cfgs.any (·.telemetryManaged) = true → hasOTelAccessLog mgr = true) :
    injectIntoManager mgr cfgs = mgr := by
  have hnone : toInsert mgr.names (cfgs.flatMap makeECDSFilterStubs) = [] := by
    rw [← map_eq_nil_iff (f := (·.name)), eq_nil_iff_forall_not_mem]
    intro name hname
    obtain ⟨hstub, hnot⟩ := mem_names_toInsert.mp hname
    exact hnot (hstubs name hstub)
  rw [HttpConnectionManager.names] at hnone
  rw [injectIntoManager, hnone, injectStubs, if_pos]
  refine ⟨rfl, ?_⟩
  cases hneed : cfgs.any (·.telemetryManaged) with
  | false => exact .inl rfl
  | true => exact .inr (hlog hneed)

variable (hrouter : ∃ r ∈ mgr.httpFilters, isRouter r = true)
include hrouter

lemma names_injectIntoManager (cfgs : List PortableConfig) :
    ∃ behind, mgr.names = mgr.ahead ++ behind ∧
      (injectIntoManager mgr cfgs).names = mgr.ahead ++
        ((toInsert mgr.names (cfgs.flatMap makeECDSFilterStubs)).map (·.name) ++ behind) := by
  refine ⟨(mgr.httpFilters.dropWhile (!isRouter ·)).map (·.name), ?_, ?_⟩
  · rw [HttpConnectionManager.ahead, ← map_append, takeWhile_append_dropWhile]
    rfl
  · rw [HttpConnectionManager.names, injectIntoManager_httpFilters hrouter, map_append, map_append]
    rfl

lemma mem_names_injectIntoManager {name : String} :
    name ∈ (injectIntoManager mgr cfgs).names ↔ name ∈ mgr.names ∨ name ∈ stubNames cfgs := by
  obtain ⟨behind, hbefore, hafter⟩ := names_injectIntoManager hrouter cfgs
  rw [hafter, mem_append, mem_append, mem_names_toInsert, hbefore, mem_append, stubNames]
  tauto

lemma nodup_names_injectIntoManager (hnodup : mgr.names.Nodup) :
    (injectIntoManager mgr cfgs).names.Nodup := by
  obtain ⟨behind, hbefore, hafter⟩ := names_injectIntoManager hrouter cfgs
  obtain ⟨hnew, hfresh⟩ := toInsert_names (cfgs.flatMap makeECDSFilterStubs) mgr.names
  rw [hafter, List.Perm.nodup_iff (perm_append_comm_assoc _ _ _), ← hbefore]
  exact nodup_append.mpr
    ⟨hnew, hnodup, fun name hname name' hname' heq => hfresh name hname (heq ▸ hname')⟩

lemma pair_sublist_injectIntoManager (hnodup : mgr.names.Nodup) (hc : c ∈ stubNames cfgs)
    (hw : w ∈ stubNames cfgs) :
    [c, w].Sublist (injectIntoManager mgr cfgs).names ↔ ComesFirst mgr cfgs c w := by
  obtain ⟨behind, hbefore, hafter⟩ := names_injectIntoManager hrouter cfgs
  have hboth : ∀ l : List String, [c, w].Sublist l → c ∈ l ∧ w ∈ l := fun l h =>
    ⟨h.subset mem_cons_self, h.subset (mem_cons_of_mem _ mem_cons_self)⟩
  have hnew : ∀ {name}, name ∈ stubNames cfgs →
      (name ∈ (toInsert mgr.names (cfgs.flatMap makeECDSFilterStubs)).map (·.name) ↔
        name ∉ mgr.names) := fun h => mem_names_toInsert.trans (and_iff_right h)
  have hpair : c ∉ mgr.names → w ∉ mgr.names → _ := pair_sublist_toInsert hc hw
  have hdisjoint : ∀ name ∈ mgr.ahead, name ∉ behind := by
    rw [hbefore] at hnodup
    exact fun name hname hbehind => (nodup_append.mp hnodup).2.2 name hname name hbehind rfl
  have hmem : ∀ name, name ∈ mgr.names ↔ name ∈ mgr.ahead ∨ name ∈ behind := by
    intro name
    rw [hbefore, mem_append]
  rw [hafter, pair_sublist_append, pair_sublist_append, mem_append, hnew hc, hnew hw, ComesFirst]
  split_ifs with hwm
  · -- the engine is there already
    have hside : w ∈ behind ↔ w ∉ mgr.ahead :=
      ⟨fun h h' => hdisjoint w h' h, ((hmem w).mp hwm).resolve_left⟩
    have hnot : ¬[c, w].Sublist ((toInsert mgr.names (cfgs.flatMap makeECDSFilterStubs)).map
        (·.name)) := fun h => (hnew hw).mp (hboth _ h).2 hwm
    rw [hside]
    conv_rhs => rw [hbefore, pair_sublist_append, hside, ← hbefore]
    tauto
  · have hout := not_or.mp (mt (hmem w).mpr hwm)
    have hpair' : [c, w].Sublist ((toInsert mgr.names (cfgs.flatMap makeECDSFilterStubs)).map
        (·.name)) ↔ c ∉ mgr.names ∧ (stubNames cfgs).idxOf c < (stubNames cfgs).idxOf w :=
      ⟨fun h => ⟨(hnew hc).mp (hboth _ h).1, (hpair ((hnew hc).mp (hboth _ h).1) hwm).mp h⟩,
        fun h => (hpair h.1 hwm).mpr h.2⟩
    have hahead : ¬[c, w].Sublist mgr.ahead := fun h => hout.1 (hboth _ h).2
    have hbehind : ¬[c, w].Sublist behind := fun h => hout.2 (hboth _ h).2
    rw [hpair']
    tauto

lemma injectIntoManager_twice :
    injectIntoManager (injectIntoManager mgr cfgs) cfgs = injectIntoManager mgr cfgs := by
  refine injectIntoManager_eq_self (fun name hname => ?_) fun hneed => ?_
  · exact (mem_names_injectIntoManager hrouter).mpr (.inr hname)
  · rw [hasOTelAccessLog, injectIntoManager_accessLog, if_pos hneed]
    exact (appendOTelAccessLog_cases mgr).1

lemma injected_iff (hnodup : mgr.names.Nodup) :
    Injected cfgs mgr (injectIntoManager mgr cfgs) ↔
      ∀ p ∈ cfgs, ∀ c ∈ p.filters, c.role = .challenge → ∀ w ∈ p.filters, w.role = .waf →
        ComesFirst mgr cfgs c.extensionName w.extensionName := by
  have hstub : ∀ p ∈ cfgs, ∀ f ∈ p.filters, f.extensionName ∈ stubNames cfgs := by
    intro p hp f hf
    have hne : p.filters ≠ [] := ne_nil_of_mem hf
    refine mem_map.mpr ⟨makeECDSFilterStub f.extensionName p.ecdsCluster, ?_, rfl⟩
    refine mem_flatMap.mpr ⟨p, hp, ?_⟩
    rw [makeECDSFilterStubs, if_neg hne]
    exact mem_map_of_mem hf
  have hpair := fun p hp c hc w hw => pair_sublist_injectIntoManager hrouter hnodup
    (hstub p hp c hc) (hstub p hp w hw)
  constructor
  · exact fun h p hp c hc hrole w hw hrole' =>
      (hpair p hp c hc w hw).mp (h.ordered p hp c hc hrole w hw hrole')
  · intro h
    have hfilters : (injectIntoManager mgr cfgs).httpFilters = _ :=
      injectIntoManager_httpFilters hrouter
    refine ⟨?_, nodup_names_injectIntoManager hrouter hnodup,
      fun _ => mem_names_injectIntoManager hrouter, ?_, ?_, ?_⟩
    · rw [hfilters]
      conv_lhs => rw [← takeWhile_append_dropWhile (p := (!isRouter ·)) (l := mgr.httpFilters)]
      exact (List.Sublist.refl _).append (sublist_append_right _ _)
    · intro f hf hnew
      rw [hfilters, mem_append, mem_append] at hf
      have hf : f ∈ toInsert mgr.names (cfgs.flatMap makeECDSFilterStubs) :=
        (hf.resolve_left fun h => hnew (takeWhile_subset _ h)).resolve_right
          fun h => hnew (dropWhile_subset _ h)
      refine ⟨toInsert_subset _ _ f hf, fun r hr hisr => ?_⟩
      rw [← takeWhile_append_dropWhile (p := (!isRouter ·)) (l := mgr.httpFilters),
        mem_append] at hr
      have hr := hr.resolve_left fun h => by simpa [hisr] using mem_takeWhile_imp h
      rw [hfilters, pair_sublist_append, pair_sublist_append]
      exact .inr (.inr (.inr (.inl ⟨hf, hr⟩)))
    · exact fun p hp c hc hrole w hw hrole' =>
        (hpair p hp c hc w hw).mpr (h p hp c hc hrole w hw hrole')
    · rw [injectIntoManager_accessLog]
      split_ifs
      · exact (appendOTelAccessLog_cases mgr).2
      · exact .inl rfl

end

/-! ## The chain -/

lemma chainManager_inject (fc : List NetworkFilter) (cfgs : List PortableConfig) :
    chainManager (injectIntoFilterChain fc cfgs) =
      (chainManager fc).map fun mgr => injectIntoManager mgr cfgs := by
  induction fc with
  | nil => rfl
  | cons f fc ih =>
    cases hmgr : f.manager with
    | none => simpa [chainManager, injectIntoFilterChain, hmgr] using ih
    | some mgr => simp [chainManager, injectIntoFilterChain, hmgr]

lemma injectIntoFilterChain_twice {fc : List NetworkFilter} {cfgs : List PortableConfig}
    {mgr : HttpConnectionManager} (hmgr : chainManager fc = some mgr)
    (h : injectIntoManager (injectIntoManager mgr cfgs) cfgs = injectIntoManager mgr cfgs) :
    injectIntoFilterChain (injectIntoFilterChain fc cfgs) cfgs = injectIntoFilterChain fc cfgs := by
  induction fc with
  | nil => rfl
  | cons f fc ih =>
    cases hf : f.manager with
    | none =>
      simp only [chainManager, findSome?_cons, hf] at hmgr
      simp [injectIntoFilterChain, hf, ih hmgr]
    | some m =>
      simp only [chainManager, findSome?_cons, hf, Option.some.injEq] at hmgr
      simp [injectIntoFilterChain, hf, hmgr, h]

/-- An injection is as it should be, and a second one changes nothing, exactly if for every
configuration the challenge comes to stand in front of the engine. -/
theorem inject_correct_iff (cfgs : List PortableConfig) {fc : List NetworkFilter}
    {mgr : HttpConnectionManager} (hmgr : chainManager fc = some mgr) (hnodup : mgr.names.Nodup)
    (hrouter : ∃ r ∈ mgr.httpFilters, isRouter r = true) :
    ((∃ mgr', chainManager (injectIntoFilterChain fc cfgs) = some mgr' ∧ Injected cfgs mgr mgr') ∧
      injectIntoFilterChain (injectIntoFilterChain fc cfgs) cfgs = injectIntoFilterChain fc cfgs)
    ↔ ∀ p ∈ cfgs, ∀ c ∈ p.filters, c.role = .challenge → ∀ w ∈ p.filters, w.role = .waf →
        ComesFirst mgr cfgs c.extensionName w.extensionName := by
  have htwice : injectIntoFilterChain (injectIntoFilterChain fc cfgs) cfgs = _ :=
    injectIntoFilterChain_twice hmgr (injectIntoManager_twice hrouter)
  rw [chainManager_inject, hmgr, ← injected_iff hrouter hnodup]
  simp [htwice]

/-- A WAF with a challenge in front of its engine. -/
def challengeConfig : PortableConfig where
  filters := [{ extensionName := "challenge", role := .challenge }, { extensionName := "waf" }]

/-- A chain whose connection manager has a router behind some filters. -/
def routerChain (filters : List HttpFilter) : List NetworkFilter :=
  [⟨"http_connection_manager", some ⟨filters ++ [router], []⟩⟩]

theorem inject_challenged_fresh :
    ∃ mgr', chainManager (injectIntoFilterChain (routerChain []) [challengeConfig]) = some mgr' ∧
      Injected [challengeConfig] ⟨[router], []⟩ mgr' :=
  ((inject_correct_iff [challengeConfig] (show chainManager (routerChain []) = _ from rfl) (by decide)
    ⟨router, mem_cons_self, by decide⟩).mpr (by decide)).1

theorem inject_challenge_behind :
    let chain := injectIntoFilterChain (routerChain [⟨"waf", .discovery ""⟩]) [challengeConfig]
    (chainManager chain).map (·.names) = some ["waf", "challenge", routerName] ∧
      ¬ ∃ mgr', chainManager chain = some mgr' ∧
        Injected [challengeConfig] ⟨[⟨"waf", .discovery ""⟩, router], []⟩ mgr' := by
  have hnames : (chainManager (injectIntoFilterChain (routerChain [⟨"waf", .discovery ""⟩])
      [challengeConfig])).map (·.names) = some ["waf", "challenge", routerName] := by decide
  refine ⟨hnames, ?_⟩
  rintro ⟨mgr', hmgr', hinjected⟩
  rw [hmgr', Option.map_some, Option.some.injEq] at hnames
  have hordered := hinjected.ordered challengeConfig mem_cons_self _ mem_cons_self rfl _
    (mem_cons_of_mem _ mem_cons_self) rfl
  rw [hnames] at hordered
  exact absurd hordered (by decide)

end KubeWaf.Dataplane
