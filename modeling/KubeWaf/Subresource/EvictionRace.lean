import KubeWaf.Subresource.ConcurrencyCaps

/-!
# The race with an eviction

With more namespaces than the map has room for, a request can look up its channel, another one
evict it, and the first one send to it then. For a probe the namespace then gets a second channel
and exceeds its limit; a query does not find its channel when it leaves, and never frees its slot.
Together with the runs that keep the caps this says exactly when they hold (`caps_hold_iff`).
-/

namespace KubeWaf.Subresource

open Lib List

/-! ## Building runs -/

section Reach

variable {kind : GateKind} {limits : GateLimits} {N : Set String} {ns : String} {g : Gate}
  {l : List Place} {sem : ℕ} {order : List (String × ℕ)}

/-- There is a run between the states with requests for namespaces of `N`. -/
def GateRun.Reach (kind : GateKind) (limits : GateLimits) (N : Set String) (s s' : GateRun) :
    Prop :=
  ∃ events, (∀ ns, .enter ns ∈ events → ns ∈ N) ∧
    runEvents (GateRun.step kind limits) events s = some s'

lemma GateRun.Reach.refl (s : GateRun) : s.Reach kind limits N s :=
  ⟨[], fun _ h => (nomatch h), rfl⟩

lemma GateRun.Reach.trans {s₁ s₂ s₃ : GateRun} (h : s₁.Reach kind limits N s₂)
    (h' : s₂.Reach kind limits N s₃) : s₁.Reach kind limits N s₃ := by
  obtain ⟨events, hin, hrun⟩ := h
  obtain ⟨events', hin', hrun'⟩ := h'
  refine ⟨events ++ events', fun ns hmem => ?_, ?_⟩
  · rcases mem_append.mp hmem with hmem | hmem
    · exact hin ns hmem
    · exact hin' ns hmem
  · rw [runEvents_append, hrun]
    exact hrun'

lemma reach_enter (hns : ns ∈ N) (hquery : kind = .query → ns ≠ "")
    (hroom : g.global < limits.globalMax) :
    GateRun.Reach kind limits N ⟨g, l⟩
      ⟨{ g with global := g.global + 1 }, l ++ [.entered ns]⟩ := by
  have henter : g.enter kind limits ns = ({ g with global := g.global + 1 }, .entered ns) := by
    rw [Gate.enter, if_pos hroom]
    cases kind with
    | probe => rfl
    | query => exact if_neg (hquery rfl)
  refine ⟨[.enter ns], fun ns' hmem => ?_, ?_⟩
  · rw [GateEvent.enter.inj (mem_singleton.mp hmem)]
    exact hns
  · rw [runEvents, GateRun.step, henter]
    rfl

lemma reach_act {g' : Gate} {rest : List Place} {p p' : Place} (action : GateAction)
    (h : p.step kind limits g action = some (g', p')) :
    GateRun.Reach kind limits N ⟨g, l ++ p :: rest⟩ ⟨g', l ++ p' :: rest⟩ := by
  refine ⟨[.act l.length action], fun ns' hmem => ?_, ?_⟩
  · cases mem_singleton.mp hmem
  · rw [runEvents, GateRun.step]
    simp [h, runEvents]

lemma step_lookup {g' : Gate} (horder : order.Perm g.entries)
    (h : g.lookupSem ns order = (g', some sem)) :
    Place.step kind limits g (.entered ns) (.lookup order) = some (g', .looked ns sem) := by
  rw [Place.step, if_pos horder, h]

lemma step_send (h : g.len sem < semCapacity limits.perNamespace) :
    Place.step kind limits g (.looked ns sem) .send
      = some ({ g with len := Function.update g.len sem (g.len sem + 1) },
        .acquired ns (some sem)) := by
  rw [Place.step, if_pos h]

lemma reach_leave (hquery : kind = .query → ns ≠ "") (hsem : g.sems.lookup ns = some sem)
    (hglobal : 0 < g.global) :
    GateRun.Reach kind limits N ⟨g, l ++ [.acquired ns (some sem)]⟩
      ⟨{ g.releaseNS sem with global := g.global - 1 }, l ++ [.done]⟩ := by
  have hfreed : GateRun.Reach kind limits N ⟨g, l ++ [.acquired ns (some sem)]⟩
      ⟨g.releaseNS sem, l ++ [.freed]⟩ := by
    cases kind with
    | probe => exact reach_act .free rfl
    | query =>
      have hfind : Place.step .query limits g (.acquired ns (some sem)) .find
          = some (g, .found ns (some sem) (some sem)) := by
        rw [Place.step, if_neg (hquery rfl), hsem]
      exact (reach_act .find hfind).trans (reach_act .free rfl)
  refine hfreed.trans (reach_act .leave ?_)
  cases kind with
  | probe =>
    rw [Place.step]
    exact if_neg hglobal.ne'
  | query => rfl

lemma reach_pass {g₁ : Gate} (hns : ns ∈ N) (hquery : kind = .query → ns ≠ "")
    (hroom : g.global < limits.globalMax) (horder : order.Perm g.entries)
    (hlookup : Gate.lookupSem { g with global := g.global + 1 } ns order = (g₁, some sem))
    (hlen : g.len sem < semCapacity limits.perNamespace) :
    GateRun.Reach kind limits N ⟨g, l⟩ ⟨{ g₁ with global := g.global }, l ++ [.done]⟩ := by
  obtain ⟨hlen₁, hglobal₁⟩ := lookupSem_frame { g with global := g.global + 1 } ns order
  rw [hlookup] at hlen₁ hglobal₁
  have hsent : g₁.len sem < semCapacity limits.perNamespace := by
    rw [hlen₁]
    exact hlen
  have hsem : g₁.sems.lookup ns = some sem := lookup_of_lookupSem hlookup
  have hpos : 0 < g₁.global := by
    rw [hglobal₁]
    exact Nat.succ_pos _
  have htake : GateRun.Reach kind limits N ⟨g, l⟩
      ⟨{ g₁ with len := Function.update g₁.len sem (g₁.len sem + 1) },
        l ++ [.acquired ns (some sem)]⟩ :=
    ((reach_enter hns hquery hroom).trans
      (reach_act (.lookup order) (step_lookup horder hlookup))).trans
        (reach_act .send (step_send hsent))
  have hreach := htake.trans (reach_leave hquery hsem hpos)
  -- the slot that was taken is free again
  have hfinal : Gate.mk (g₁.global - 1) g₁.sems
      (Function.update (Function.update g₁.len sem (g₁.len sem + 1)) sem
        (Function.update g₁.len sem (g₁.len sem + 1) sem - 1)) g₁.next
      = { g₁ with global := g.global } := by
    rw [Function.update_self, Nat.add_sub_cancel, Function.update_idem, Function.update_eq_self,
      hglobal₁]
    rfl
  rw [← hfinal]
  exact hreach

end Reach

/-! ## A full map -/

lemma mapLen_eq_length_keys (m : GoMap String ℕ) : mapLen m = m.keys.length :=
  (length_map _).symm

lemma keys_insert_of_lookup_none {m : GoMap String ℕ} {ns : String} (h : m.lookup ns = none)
    (ch : ℕ) : (m.insert ns ch).keys = ns :: m.keys := by
  rw [AList.keys_insert, erase_of_not_mem (AList.lookup_eq_none.mp h)]

lemma mapLen_erase {m : GoMap String ℕ} {ns : String} {ch : ℕ} (h : m.lookup ns = some ch) :
    mapLen (m.erase ns) + 1 = mapLen m := by
  have hmem : ns ∈ m.keys := AList.lookup_isSome.mp (h ▸ rfl)
  rw [mapLen_eq_length_keys, mapLen_eq_length_keys, AList.keys_erase, length_erase_of_mem hmem]
  have := length_pos_of_mem hmem
  omega

lemma lookupSem_of_lookup {g : Gate} {ns : String} {sem : ℕ} (h : g.sems.lookup ns = some sem)
    (order : List (String × ℕ)) : g.lookupSem ns order = (g, some sem) := by
  simp [Gate.lookupSem, h]

lemma lookupSem_new {g : Gate} {ns : String} (h : g.sems.lookup ns = none)
    (hroom : mapLen g.sems < maxNSSemEntries) (order : List (String × ℕ)) :
    g.lookupSem ns order
      = ({ g with sems := g.sems.insert ns g.next, next := g.next + 1 }, some g.next) := by
  simp [Gate.lookupSem, h, if_neg hroom.not_ge]

lemma lookupSem_evict {g : Gate} {ns k : String} {ch : ℕ} {order : List (String × ℕ)}
    (h : g.sems.lookup ns = none) (hfull : mapLen g.sems = maxNSSemEntries)
    (hk : g.sems.lookup k = some ch) (hidle : g.len ch = 0) :
    g.lookupSem ns ((k, ch) :: order)
      = ({ g with sems := (g.sems.erase k).insert ns g.next, next := g.next + 1 },
        some g.next) := by
  have hroom : mapLen (g.sems.erase k) < maxNSSemEntries := by
    have := mapLen_erase hk
    omega
  have hevict : evictIdle g.len ((k, ch) :: order) g.sems = g.sems.erase k := by
    rw [evictIdle, if_pos hidle, if_pos hroom]
  simp [Gate.lookupSem, h, if_pos hfull.ge, hevict, if_neg hroom.not_ge]

lemma mem_entries {g : Gate} {ns : String} {ch : ℕ} (h : g.sems.lookup ns = some ch) :
    (ns, ch) ∈ g.entries :=
  mem_map.mpr ⟨⟨ns, ch⟩, GoMap.mem_entries_iff.mpr h, rfl⟩

/-- A gate without requests under way, whose map has the namespaces `names`. -/
structure Gate.Quiet (names : List String) (g : Gate) : Prop where
  global : g.global = 0
  len : ∀ ch, g.len ch = 0
  keys : g.sems.keys = names
  next : ∀ ns ch, g.sems.lookup ns = some ch → ch < g.next

section Fill

variable {kind : GateKind} {limits : GateLimits} {N : Set String}

lemma reach_quiet (hcap : 0 < semCapacity limits.perNamespace) (hglobal : 0 < limits.globalMax)
    {names : List String} (hnodup : names.Nodup) (hlength : names.length ≤ maxNSSemEntries)
    (hN : ∀ ns ∈ names, ns ∈ N ∧ (kind = .query → ns ≠ "")) :
    ∃ g l, GateRun.Reach kind limits N {} ⟨g, l⟩ ∧ g.Quiet names ∧ ∀ p ∈ l, p = .done := by
  induction names with
  | nil =>
    exact ⟨{}, [], .refl _, ⟨rfl, fun _ => rfl, rfl, fun _ _ h => (nomatch h)⟩,
      fun _ h => (nomatch h)⟩
  | cons ns names ih =>
    obtain ⟨hnotMem, hnodup⟩ := nodup_cons.mp hnodup
    have hlt : names.length < maxNSSemEntries := hlength
    obtain ⟨g, l, hreach, hquiet, hdone⟩ :=
      ih hnodup hlt.le fun ns' hmem => hN ns' (mem_cons_of_mem ns hmem)
    obtain ⟨hns, hquery⟩ := hN ns mem_cons_self
    have hnone : g.sems.lookup ns = none := by
      rw [AList.lookup_eq_none, AList.mem_keys, hquiet.keys]
      exact hnotMem
    have hroom : mapLen g.sems < maxNSSemEntries := by
      rw [mapLen_eq_length_keys, hquiet.keys]
      exact hlt
    have hpass := reach_pass (l := l) hns hquery (by rw [hquiet.global]; exact hglobal)
      (.refl _) (lookupSem_new (g := { g with global := g.global + 1 }) hnone hroom g.entries)
      (by rw [hquiet.len]; exact hcap)
    refine ⟨_, _, hreach.trans hpass, ⟨hquiet.global, hquiet.len, ?_, ?_⟩, ?_⟩
    · show (g.sems.insert ns g.next).keys = ns :: names
      rw [keys_insert_of_lookup_none hnone, hquiet.keys]
    · intro ns' ch hch
      show ch < g.next + 1
      by_cases heq : ns' = ns
      · subst heq
        have hlast : some g.next = some ch := (AList.lookup_insert g.sems).symm.trans hch
        cases hlast
        exact Nat.lt_succ_self _
      · exact (hquiet.next ns' ch ((AList.lookup_insert_ne heq).symm.trans hch)).trans
          (Nat.lt_succ_self _)
    · intro p hp
      rcases mem_append.mp hp with hp | hp
      · exact hdone p hp
      · exact mem_singleton.mp hp

/-- A gate in which a request for `a` has a slot of a channel that the map has no longer. -/
structure Gate.Orphaned (a : String) (orphan : ℕ) (g : Gate) : Prop where
  global : g.global = 1
  taken : g.len orphan = 1
  len : ∀ ch ≠ orphan, g.len ch = 0
  full : mapLen g.sems = maxNSSemEntries
  lookup : g.sems.lookup a = none
  idle : ∃ k ch, g.sems.lookup k = some ch ∧ ch ≠ orphan
  next : orphan < g.next

lemma reach_orphaned (hcap : 0 < semCapacity limits.perNamespace) (hglobal : 1 < limits.globalMax)
    {names : List String} {a b : String} (hnodup : (b :: a :: names).Nodup)
    (hlength : (a :: names).length = maxNSSemEntries)
    (hN : ∀ ns ∈ b :: a :: names, ns ∈ N ∧ (kind = .query → ns ≠ "")) :
    ∃ g l orphan, GateRun.Reach kind limits N {}
        ⟨g, l ++ [.acquired a (some orphan), .done]⟩ ∧
      g.Orphaned a orphan ∧ ∀ p ∈ l, p = .done := by
  obtain ⟨hnotMem, hnodup⟩ := nodup_cons.mp hnodup
  obtain ⟨g, l, hreach, hquiet, hdone⟩ := reach_quiet hcap (Nat.zero_lt_of_lt hglobal) hnodup
    hlength.le fun ns hmem => hN ns (mem_cons_of_mem b hmem)
  obtain ⟨ha, haquery⟩ := hN a (mem_cons_of_mem b mem_cons_self)
  obtain ⟨hb, hbquery⟩ := hN b mem_cons_self
  have hfull : mapLen g.sems = maxNSSemEntries := by
    rw [mapLen_eq_length_keys, hquiet.keys, hlength]
  obtain ⟨orphan, horphan⟩ : ∃ ch, g.sems.lookup a = some ch := by
    rw [← Option.isSome_iff_exists, AList.lookup_isSome, AList.mem_keys, hquiet.keys]
    exact mem_cons_self
  have hnone : g.sems.lookup b = none := by
    rw [AList.lookup_eq_none, AList.mem_keys, hquiet.keys]
    exact hnotMem
  have hab : a ≠ b := fun heq => hnotMem (heq ▸ mem_cons_self)
  -- the first request has its channel, and has not sent yet
  have hlooked : GateRun.Reach kind limits N {}
      ⟨{ g with global := g.global + 1 }, l ++ [.looked a orphan]⟩ :=
    hreach.trans ((reach_enter ha haquery (by rw [hquiet.global]; omega)).trans
      (reach_act (.lookup g.entries) (step_lookup (.refl _)
        (lookupSem_of_lookup (g := { g with global := g.global + 1 }) horphan _))))
  -- the second one evicts it
  have hevicted := hlooked.trans (reach_pass hb hbquery
    (by show g.global + 1 < _; rw [hquiet.global]; exact hglobal)
    (perm_cons_erase (mem_entries horphan)).symm
    (lookupSem_evict (g := { g with global := g.global + 1 + 1 }) hnone hfull horphan
      (hquiet.len orphan))
    (by show g.len g.next < _; rw [hquiet.len]; exact hcap))
  rw [append_assoc] at hevicted
  -- and the first one sends
  have hsent := hevicted.trans (reach_act .send
    (step_send (by show g.len orphan < _; rw [hquiet.len]; exact hcap)))
  have hnext := hquiet.next a orphan horphan
  refine ⟨_, l, orphan, hsent, ⟨?_, ?_, ?_, ?_, ?_, ?_, ?_⟩, hdone⟩
  · show g.global + 1 = 1
    rw [hquiet.global]
  · show Function.update g.len orphan (g.len orphan + 1) orphan = 1
    rw [Function.update_self, hquiet.len]
  · intro ch hch
    show Function.update g.len orphan (g.len orphan + 1) ch = 0
    rw [Function.update_of_ne hch, hquiet.len]
  · show mapLen ((g.sems.erase a).insert b g.next) = maxNSSemEntries
    have hb' : (g.sems.erase a).lookup b = none := (AList.lookup_erase_ne hab.symm).trans hnone
    rw [mapLen_eq_length_keys, keys_insert_of_lookup_none hb', length_cons,
      ← mapLen_eq_length_keys, mapLen_erase horphan, hfull]
  · show ((g.sems.erase a).insert b g.next).lookup a = none
    rw [AList.lookup_insert_ne hab, AList.lookup_erase]
  · exact ⟨b, g.next, AList.lookup_insert _, hnext.ne'⟩
  · exact hnext.trans (Nat.lt_succ_self _)

lemma reach_leaked (hcap : 0 < semCapacity limits.perNamespace) (hglobal : 1 < limits.globalMax)
    {names : List String} {a b : String} (hnodup : (b :: a :: names).Nodup)
    (hlength : (a :: names).length = maxNSSemEntries)
    (hN : ∀ ns ∈ b :: a :: names, ns ∈ N ∧ ns ≠ "") :
    ∃ s, GateRun.Reach .query limits N {} s ∧ ∃ ch, s.gate.len ch = 1 ∧
      s.requests.countP (Place.holds ch) = 0 := by
  obtain ⟨g, l, orphan, hreach, horphaned, hdone⟩ := @reach_orphaned .query limits N hcap
    hglobal names a b hnodup hlength fun ns hmem => ⟨(hN ns hmem).1, fun _ => (hN ns hmem).2⟩
  have hne : a ≠ "" := (hN a (mem_cons_of_mem b mem_cons_self)).2
  have hfind : Place.step .query limits g (.acquired a (some orphan)) .find
      = some (g, .found a (some orphan) none) := by
    rw [Place.step, if_neg hne, horphaned.lookup]
  refine ⟨⟨g, l ++ [.freed, .done]⟩, hreach.trans ((reach_act .find hfind).trans
    (reach_act .free rfl)), orphan, horphaned.taken, ?_⟩
  rw [countP_eq_zero]
  intro p hp
  rcases mem_append.mp hp with hp | hp
  · rw [hdone p hp]
    exact Bool.false_ne_true
  · rcases mem_pair.mp hp with rfl | rfl
    · exact Bool.false_ne_true
    · exact Bool.false_ne_true

lemma reach_flooded (hglobal : 1 < limits.globalMax) {names : List String} {a b : String}
    (hnodup : (b :: a :: names).Nodup) (hlength : (a :: names).length = maxNSSemEntries)
    (hN : ∀ ns ∈ b :: a :: names, ns ∈ N) (k : ℕ)
    (hk : k < semCapacity limits.perNamespace) (hmax : k + 2 ≤ limits.globalMax) :
    ∃ g l sem, GateRun.Reach .probe limits N {} ⟨g, l⟩ ∧ g.global = k + 2 ∧
      g.sems.lookup a = some sem ∧ g.len sem = k + 1 ∧
      l.countP (Place.holdsFor a) = k + 2 := by
  have hprobe : ∀ ns : String, GateKind.probe = .query → ns ≠ "" := fun _ h => (nomatch h)
  have ha : a ∈ N := hN a (mem_cons_of_mem b mem_cons_self)
  have hself : ∀ sem, Place.holdsFor a (.acquired a (some sem)) = true := by
    simp [Place.holdsFor]
  induction k with
  | zero =>
    obtain ⟨g, l, orphan, hreach, horphaned, hdone⟩ := @reach_orphaned .probe limits N hk
      hglobal names a b hnodup hlength fun ns hmem => ⟨hN ns hmem, hprobe ns⟩
    obtain ⟨idle, ch, hidle, hch⟩ := horphaned.idle
    have hroom : g.global < limits.globalMax := by
      rw [horphaned.global]
      exact hglobal
    have hempty : g.len g.next = 0 := horphaned.len _ horphaned.next.ne'
    have hlooked := hreach.trans ((reach_enter ha (hprobe a) hroom).trans
      (reach_act _ (step_lookup (perm_cons_erase (mem_entries hidle)).symm
        (lookupSem_evict (g := { g with global := g.global + 1 }) horphaned.lookup
          horphaned.full hidle (horphaned.len ch hch)))))
    have hsent := hlooked.trans (reach_act .send (step_send
      (by show g.len g.next < _; rw [hempty]; exact hk)))
    refine ⟨_, _, g.next, hsent, ?_, ?_, ?_, ?_⟩
    · show g.global + 1 = 2
      rw [horphaned.global]
    · exact AList.lookup_insert _
    · show Function.update g.len g.next (g.len g.next + 1) g.next = 1
      rw [Function.update_self, hempty]
    · have hl : l.countP (Place.holdsFor a) = 0 := by
        rw [countP_eq_zero]
        intro p hp
        rw [hdone p hp]
        exact Bool.false_ne_true
      rw [countP_append, countP_append, hl, countP_cons_of_pos (hself _),
        countP_singleton, countP_singleton, hself, if_pos rfl]
      rfl
  | succ k ih =>
    obtain ⟨g, l, sem, hreach, hg, hsem, hlen, hcount⟩ :=
      ih (Nat.lt_of_succ_lt hk) (Nat.le_of_succ_le hmax)
    have hlooked := hreach.trans ((reach_enter ha (hprobe a) (by rw [hg]; exact hmax)).trans
      (reach_act _ (step_lookup (.refl _)
        (lookupSem_of_lookup (g := { g with global := g.global + 1 }) hsem g.entries))))
    have hsent := hlooked.trans (reach_act .send (step_send
      (by show g.len sem < _; rw [hlen]; exact hk)))
    refine ⟨_, _, sem, hsent, ?_, hsem, ?_, ?_⟩
    · show g.global + 1 = k + 1 + 2
      rw [hg]
    · show Function.update g.len sem (g.len sem + 1) sem = k + 1 + 1
      rw [Function.update_self, hlen]
    · rw [countP_append, hcount, countP_singleton, hself, if_pos rfl]

end Fill

/-! ## The caps -/

lemma limitOr_pos {n default : ℤ} (h : 0 < default) : 0 < limitOr n default := by
  rw [limitOr]
  split <;> omega

lemma limits_pos (cfg : Config) (kind : GateKind) :
    0 < (cfg.limits kind).perNamespace ∧ 0 < (cfg.limits kind).globalMax := by
  cases kind with
  | probe => exact ⟨limitOr_pos (by decide), limitOr_pos (by decide)⟩
  | query => exact ⟨limitOr_pos (by decide), limitOr_pos (by decide)⟩

lemma exists_names {N : Set String} (h : ¬N.encard ≤ maxNSSemEntries) :
    ∃ b a names, (b :: a :: names).Nodup ∧ (a :: names).length = maxNSSemEntries ∧
      ∀ ns ∈ b :: a :: names, ns ∈ N := by
  have hle : ((maxNSSemEntries + 1 : ℕ) : ℕ∞) ≤ N.encard := by
    rw [Nat.cast_add, Nat.cast_one]
    exact Order.add_one_le_of_lt (not_le.mp h)
  obtain ⟨t, htN, ht⟩ := Set.exists_subset_encard_eq hle
  have hfinite : t.Finite := Set.finite_of_encard_eq_coe ht
  have hcard : hfinite.toFinset.toList.length = maxNSSemEntries + 1 := by
    rw [Finset.length_toList]
    rw [hfinite.encard_eq_coe_toFinset_card] at ht
    exact_mod_cast ht
  match hlist : hfinite.toFinset.toList, hcard with
  | b :: a :: names, hcard =>
    refine ⟨b, a, names, ?_, Nat.succ.inj hcard, fun ns hmem => htN ?_⟩
    · rw [← hlist]
      exact Finset.nodup_toList _
    · rw [← hlist, Finset.mem_toList, Set.Finite.mem_toFinset] at hmem
      exact hmem

lemma exists_exceeded {limits : GateLimits} {N : Set String} (hpos : 0 < limits.perNamespace)
    (hN : ¬N.encard ≤ maxNSSemEntries) (hglobal : limits.perNamespace < limits.globalMax) :
    ∃ s, GateRun.Reach .probe limits N {} s ∧
      ∃ ns, limits.perNamespace < s.requests.countP (Place.holdsFor ns) := by
  obtain ⟨b, a, names, hnodup, hlength, hmem⟩ := exists_names hN
  have hcap : semCapacity limits.perNamespace = limits.perNamespace := if_neg hpos.not_ge
  obtain ⟨g, l, _, hreach, _, _, _, hcount⟩ := @reach_flooded limits N (by omega) names a
    b hnodup hlength hmem (limits.perNamespace - 1) (by omega) (by omega)
  refine ⟨_, hreach, a, ?_⟩
  show limits.perNamespace < l.countP (Place.holdsFor a)
  omega

lemma exists_leaked {limits : GateLimits} {N : Set String} (hpos : 0 < limits.perNamespace)
    (hN : ¬(N \ {""}).encard ≤ maxNSSemEntries) (hglobal : 1 < limits.globalMax) :
    ∃ s, GateRun.Reach .query limits N {} s ∧
      ∃ ch, s.gate.len ch = 1 ∧ s.requests.countP (Place.holds ch) = 0 := by
  obtain ⟨b, a, names, hnodup, hlength, hmem⟩ := exists_names hN
  have hcap : 0 < semCapacity limits.perNamespace := by
    rw [semCapacity, if_neg hpos.not_ge]
    exact hpos
  exact reach_leaked hcap hglobal hnodup hlength hmem

/-- When the caps hold in every interleaving of requests for namespaces of `N`. Probes need room
for every namespace in the map, or no more slots for all of them than for one namespace. Queries
need room for every namespace, or one slot for all of them. -/
theorem caps_hold_iff (cfg : Config) (N : Set String) :
    ((∀ events s, (∀ ns, .enter ns ∈ events → ns ∈ N) →
        runEvents (GateRun.step .probe (cfg.limits .probe)) events {} = some s →
        s.Capped (cfg.limits .probe)) ↔
      N.encard ≤ maxNSSemEntries ∨
        (cfg.limits .probe).globalMax ≤ (cfg.limits .probe).perNamespace) ∧
    ((∀ events s, (∀ ns, .enter ns ∈ events → ns ∈ N) →
        runEvents (GateRun.step .query (cfg.limits .query)) events {} = some s →
        s.Capped (cfg.limits .query)) ↔
      (N \ {""}).encard ≤ maxNSSemEntries ∨ (cfg.limits .query).globalMax ≤ 1) := by
  refine ⟨⟨fun hcapped => ?_, ?_⟩, ⟨fun hcapped => ?_, ?_⟩⟩
  · by_contra hnot
    obtain ⟨hN, hglobal⟩ := not_or.mp hnot
    obtain ⟨s, ⟨events, hin, hrun⟩, ns, hexceeded⟩ :=
      exists_exceeded (limits_pos cfg .probe).1 hN (not_le.mp hglobal)
    exact hexceeded.not_ge ((hcapped events s hin hrun).perNamespace ns)
  · rintro (hN | hglobal) events s hin hrun
    · exact capped_of_few (limits_pos cfg .probe).1 hN (fun ns hmem _ => hin ns hmem) hrun
    · exact capped_of_global hglobal hrun
  · by_contra hnot
    obtain ⟨hN, hglobal⟩ := not_or.mp hnot
    obtain ⟨s, ⟨events, hin, hrun⟩, ch, hlen, hcount⟩ :=
      exists_leaked (limits_pos cfg .query).1 hN (not_le.mp hglobal)
    have hslots := (hcapped events s hin hrun).slots ch
    rw [hlen, hcount] at hslots
    cases hslots
  · rintro (hN | hglobal) events s hin hrun
    · exact capped_of_few (limits_pos cfg .query).1 hN
        (fun ns hmem hne => ⟨hin ns hmem, hne rfl⟩) hrun
    · exact capped_of_one (limits_pos cfg .query).1 hglobal hrun

/-- A name for each number. -/
def numbered (i : ℕ) : String := String.ofList (List.replicate (i + 1) 'n')

lemma numbered_injective : Function.Injective numbered := by
  intro i j h
  have hlength := congrArg (fun name => name.toList.length) h
  simpa [numbered] using hlength

lemma not_encard_numbered (S : Set String) (hS : Set.range numbered ⊆ S) :
    ¬S.encard ≤ maxNSSemEntries := by
  intro hle
  have hfinite : (Set.range numbered).Finite :=
    (Set.finite_of_encard_le_coe hle).subset hS
  exact Set.infinite_range_of_injective numbered_injective hfinite

/-- With the default limits a namespace gets more probes than its four, and a query leaves without
freeing its slot. -/
theorem defaults_exceeded :
    (∃ events s, runEvents (GateRun.step .probe (({} : Config).limits .probe)) events {} = some s ∧
      ∃ ns, 4 < s.requests.countP (Place.holdsFor ns)) ∧
    ∃ events s, runEvents (GateRun.step .query (({} : Config).limits .query)) events {} = some s ∧
      ∃ ch, s.gate.len ch = 1 ∧ s.requests.countP (Place.holds ch) = 0 := by
  have hnonempty : Set.range numbered ⊆ Set.univ \ {""} := by
    rintro _ ⟨i, rfl⟩
    refine ⟨Set.mem_univ _, fun hempty => ?_⟩
    have hlength := congrArg (fun name => name.toList.length) hempty
    simp [numbered] at hlength
  obtain ⟨s, ⟨events, _, hrun⟩, ns, hexceeded⟩ :=
    @exists_exceeded (({} : Config).limits .probe) Set.univ (by decide)
      (not_encard_numbered _ (Set.subset_univ _)) (by decide)
  obtain ⟨s', ⟨events', _, hrun'⟩, hleaked⟩ :=
    @exists_leaked (({} : Config).limits .query) Set.univ (by decide)
      (not_encard_numbered _ hnonempty) (by decide)
  exact ⟨⟨events, s, hrun, ns, hexceeded⟩, events', s', hrun', hleaked⟩

end KubeWaf.Subresource
