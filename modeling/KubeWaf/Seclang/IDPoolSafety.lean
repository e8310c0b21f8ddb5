import KubeWaf.Seclang.IDPoolRuns
import Mathlib.Data.Finset.Card

/-!
# The invariant of the allocation

What holds throughout a run of reconciles, and what each step does to it. The pool hands out ids in
ascending order, so that it grants none twice as long as the cursor has not come round. It passes
over the ids that a SecRule sets or has, as far as the reconcile has not taken them out of its set
of used ids.
-/

namespace KubeWaf.Seclang

open Lib List

variable {used : Finset Int} {sr : StoredRule} {pool : SecRuleIDPool}

/-! ## The search of the pool -/

lemma effectiveMin_pos (p : SecRuleIDPool) : 0 < p.effectiveMin := by
  rw [SecRuleIDPool.effectiveMin]
  split_ifs with h <;> omega

lemma effectiveMin_le_cursor (p : SecRuleIDPool) : p.effectiveMin ≤ p.cursor := by
  rw [SecRuleIDPool.cursor]
  split_ifs with h <;> omega

lemma findFreeFrom_eq_some {n : ℕ} {first id : Int} (h : findFreeFrom used n first = some id) :
    first ≤ id ∧ id < first + n ∧ id ∉ used ∧ ∀ y, first ≤ y → y < id → y ∈ used := by
  induction n generalizing first with
  | zero => cases h
  | succ n ih =>
    rw [findFreeFrom] at h
    by_cases hmem : first ∈ used
    · rw [if_pos hmem] at h
      obtain ⟨hle, hlt, hfree, hbelow⟩ := ih h
      refine ⟨by omega, by push_cast; omega, hfree, ?_⟩
      intro y hy hyid
      by_cases heq : y = first
      · rwa [heq]
      · exact hbelow y (by omega) hyid
    · rw [if_neg hmem] at h
      obtain rfl := Option.some.inj h
      exact ⟨le_rfl, by push_cast; omega, hmem, fun y hy hlt => by omega⟩

lemma findFreeFrom_eq_none {n : ℕ} {first y : Int} (h : findFreeFrom used n first = none)
    (hy : first ≤ y) (hlt : y < first + n) : y ∈ used := by
  induction n generalizing first with
  | zero => omega
  | succ n ih =>
    rw [findFreeFrom] at h
    by_cases hmem : first ∈ used
    · rw [if_pos hmem] at h
      by_cases heq : y = first
      · rwa [heq]
      · push_cast at hlt
        exact ih h (by omega) (by omega)
    · rw [if_neg hmem] at h
      cases h

/-- The ids from the cursor on that are not used. -/
def SecRuleIDPool.freeIDs (p : SecRuleIDPool) (used : Finset Int) : Finset Int :=
  (Finset.range (p.effectiveMax - p.cursor + 1).toNat).image (fun n : ℕ => p.cursor + (n : Int))
    \ used

lemma mem_freeIDs {p : SecRuleIDPool} {id : Int} :
    id ∈ p.freeIDs used ↔ p.cursor ≤ id ∧ id ≤ p.effectiveMax ∧ id ∉ used := by
  rw [SecRuleIDPool.freeIDs, Finset.mem_sdiff, Finset.mem_image, ← and_assoc]
  refine and_congr_left fun _ => ⟨?_, ?_⟩
  · intro h
    obtain ⟨n, hn, rfl⟩ := h
    rw [Finset.mem_range] at hn
    omega
  · intro h
    refine ⟨(id - p.cursor).toNat, ?_, by omega⟩
    rw [Finset.mem_range]
    omega

lemma card_freeIDs_le {p : SecRuleIDPool} {later : Finset Int} {id : Int}
    (hskipped : ∀ z, p.cursor ≤ z → z < id → z ∈ used)
    (hlater : ∀ z, id < z → z ≤ p.effectiveMax → z ∉ used → z ∈ later) :
    (p.freeIDs used).card ≤ later.card + 1 := by
  refine le_trans (Finset.card_le_card ?_) (Finset.card_insert_le id later)
  intro z hz
  obtain ⟨hle, hmax, hfree⟩ := mem_freeIDs.mp hz
  rw [Finset.mem_insert]
  by_cases hlt : z < id
  · exact absurd (hskipped z hle hlt) hfree
  · by_cases heq : z = id
    · exact Or.inl heq
    · exact Or.inr (hlater z (by omega) hmax hfree)

lemma allocation_of_free {y : Int} (hy : pool.cursor ≤ y) (hmax : y ≤ pool.effectiveMax)
    (hfree : y ∉ used) :
    ∃ id pool', allocation pool used = .ok (id, pool')
      ∧ pool.cursor ≤ id ∧ id ≤ pool.effectiveMax ∧ id ∉ used
      ∧ (∀ z, pool.cursor ≤ z → z < id → z ∈ used)
      ∧ pool'.minID = pool.minID ∧ pool'.maxID = pool.maxID
      ∧ (id < pool.effectiveMax → pool'.cursor = id + 1) := by
  have hmin := effectiveMin_le_cursor pool
  cases hfind : findFree pool.cursor pool.effectiveMax used with
  | none => exact absurd (findFreeFrom_eq_none hfind hy (by omega)) hfree
  | some id =>
    obtain ⟨hle, hlt, hnew, hbelow⟩ := findFreeFrom_eq_some hfind
    have hid : id ≤ pool.effectiveMax := by omega
    rw [allocation, if_neg (by omega), hfind, Option.orElse_eq_orElse, Option.orElse_eq_or,
      Option.some_or]
    refine ⟨id, _, rfl, hle, hid, hnew, hbelow, rfl, rfl, ?_⟩
    intro hlast
    show (if _ < pool.effectiveMin then _ else _) = _
    rw [if_neg (by omega : ¬ pool.effectiveMax < id + 1),
      if_neg (by omega : ¬ id + 1 < pool.effectiveMin)]

/-! ## The invariant -/

section
variable {K : Type}

/-- What the start of a run has to satisfy: the ids that entries have are distinct and nobody sets
them, a SecRule that needs an id holds no id that it could lose to the pool, and the ids of
SecActions are out of the pool's way. -/
structure Consistent (w : World K) : Prop where
  distinct : ∀ k i k' i' id, fixedAt w k i = some (id, .auto) →
    fixedAt w k' i' = some (id, .auto) → k = k' ∧ i = i'
  explicit : ∀ k i id, fixedAt w k i = some (id, .auto) →
    (∀ k', id ∉ (w.rules k').spec.explicitIDs) ∧ id ∉ w.secActionIDs
  covered : ∀ k i, Needs w k i → ∀ id ∈ (w.rules k).ownClaims, Protected w id →
    ∃ j < i, ∃ source, fixedAt w k j = some (id, source)
  secActions : ∀ id ∈ w.secActionIDs, w.pool.cursor ≤ id → id ≤ w.pool.effectiveMax →
    ∃ k, id ∈ (w.rules k).spec.explicitIDs

/-- A grant in a run that started in `w₀`. -/
structure Earned (w₀ : World K) (allocated : List ((K × ℕ) × Int)) (g : Grant K) : Prop where
  valid : Valid w₀ allocated g.key g.index g.id
  auto : g.source = .auto → ∃ m, (w₀.rules g.key).spec.entryIDs[g.index]? = some m ∧ m ≤ 0

lemma Earned.mono {w₀ : World K} {allocated allocated' : List ((K × ℕ) × Int)} {g : Grant K}
    (h : Earned w₀ allocated g) (hsub : allocated ⊆ allocated') : Earned w₀ allocated' g where
  valid := h.valid.mono hsub
  auto := h.auto

lemma fixed?_eq_some {r : Reconcile K} {found : Option (Int × IDSource)}
    (h : r.fixed? = some found) :
    ∃ m rest, r.todo = m :: rest ∧ fixedID r.object m r.assigned.length = found := by
  rw [Reconcile.fixed?] at h
  cases htodo : r.todo with
  | nil => rw [htodo] at h; cases h
  | cons m rest =>
    rw [htodo] at h
    exact ⟨m, rest, rfl, Option.some.inj h⟩

variable [Fintype K]

/-- The ids that the pool can still grant before the cursor wraps. -/
def World.room (w₀ w : World K) : Finset Int :=
  w.pool.freeIDs (collectUsedIDs w₀.rules)

/-- A reconcile in a run that started in `w₀`. -/
structure Sound (w₀ : World K) (allocated : List ((K × ℕ) × Int)) (pools : List SecRuleIDPool)
    (r : Reconcile K) : Prop where
  object : Evolved w₀ allocated r.key r.object
  todo : r.todo = (w₀.rules r.key).spec.entryIDs.drop r.assigned.length
  assigned : ∀ i a, r.assigned[i]? = some a → Valid w₀ allocated r.key i a.1 ∧ a.1 ∈ r.used
  used : ∀ id ∈ r.used, Known w₀ allocated id
  protects : r.todo ≠ [] → ∀ id, Protected w₀ id → id ∈ r.used ∨ id ∈ r.object.ownClaims
  read : ∀ copy, r.read = some copy → copy ∈ pools ∧ r.fixed? = some none

/-- What holds throughout a run that started in `w₀`. -/
structure Inv (w₀ w : World K) : Prop where
  secActionIDs : w.secActionIDs = w₀.secActionIDs
  stores : ∀ rules ∈ w.stores, ∀ k, Evolved w₀ w.allocated k (rules k)
  running : ∀ t r, w.running t = some r → Sound w₀ w.allocated w.pools r
  versions : ∀ p ∈ w.pools, p.version ≤ w.pool.version ∧ (p.version = w.pool.version → p = w.pool)
  range : w.pool.minID = w₀.pool.minID ∧ w.pool.maxID = w₀.pool.maxID
  granted : ∀ g ∈ w.granted, Earned w₀ w.allocated g
  allocated : ∀ x ∈ w.allocated,
    ¬ Protected w₀ x.2 ∧ w₀.pool.cursor ≤ x.2 ∧ x.2 ≤ w₀.pool.effectiveMax
  unique : (w.allocated.map (·.2)).Nodup

/-- With `n` updates of the pool to come, the cursor is past what has been granted, and does not
wrap before the last of them. -/
structure Ahead (w₀ : World K) (n : ℕ) (w : World K) : Prop where
  past : 0 < n → w₀.pool.cursor ≤ w.pool.cursor ∧ ∀ x ∈ w.allocated, x.2 < w.pool.cursor
  room : n ≤ (w₀.room w).card

variable {w₀ w : World K} {allocated allocated' : List ((K × ℕ) × Int)}
  {pools pools' : List SecRuleIDPool} {r : Reconcile K} {k : K} {i n t : ℕ} {id : Int}

lemma Inv.allPositive (h : Inv w₀ w) : AllPositive w.allocated := by
  intro x hx
  have hmin := effectiveMin_pos w₀.pool
  have hcursor := effectiveMin_le_cursor w₀.pool
  have hle := (h.allocated x hx).2.1
  omega

lemma Sound.mono (h : Sound w₀ allocated pools r) (hsub : allocated ⊆ allocated')
    (hpools : pools ⊆ pools') : Sound w₀ allocated' pools' r where
  object := h.object.mono hsub
  todo := h.todo
  assigned i a ha := ⟨(h.assigned i a ha).1.mono hsub, (h.assigned i a ha).2⟩
  used id hid := (h.used id hid).mono hsub
  protects := h.protects
  read copy hcopy := ⟨hpools (h.read copy hcopy).1, (h.read copy hcopy).2⟩

/-! ## Frames -/

lemma Inv.setRunning (h : Inv w₀ w) {next : Option (Reconcile K)}
    (hnext : ∀ r, next = some r → Sound w₀ w.allocated w.pools r) :
    Inv w₀ (w.setRunning t next) where
  secActionIDs := h.secActionIDs
  stores := h.stores
  running t' r' hr' := by
    by_cases ht : t' = t
    · subst ht
      have hself : Function.update w.running t' next t' = some r' := hr'
      rw [Function.update_self] at hself
      exact hnext r' hself
    · have hother : Function.update w.running t next t' = some r' := hr'
      rw [Function.update_of_ne ht] at hother
      exact h.running t' r' hother
  versions := h.versions
  range := h.range
  granted := h.granted
  allocated := h.allocated
  unique := h.unique

lemma Inv.ended (h : Inv w₀ w) : Inv w₀ (w.setRunning t none) :=
  h.setRunning fun _ hr => by cases hr

lemma Inv.grant (h : Inv w₀ w) {g : Grant K} (hg : Earned w₀ w.allocated g) :
    Inv w₀ { w with granted := g :: w.granted } where
  secActionIDs := h.secActionIDs
  stores := h.stores
  running := h.running
  versions := h.versions
  range := h.range
  granted g' hg' := by
    rcases mem_cons.mp hg' with rfl | hg'
    · exact hg
    · exact h.granted g' hg'
  allocated := h.allocated
  unique := h.unique

lemma Inv.setRule [DecidableEq K] (h : Inv w₀ w) (hsr : Evolved w₀ w.allocated k sr) :
    Inv w₀ (w.setRule k sr) where
  secActionIDs := h.secActionIDs
  stores rules hrules k' := by
    rcases mem_cons.mp hrules with rfl | hpast
    · by_cases hk : k' = k
      · subst hk
        show Evolved w₀ w.allocated k' (Function.update w.rules k' _ k')
        rw [Function.update_self]
        exact ⟨hsr.spec, hsr.status, hsr.annotatedID⟩
      · show Evolved w₀ w.allocated k' (Function.update w.rules k _ k')
        rw [Function.update_of_ne hk]
        exact h.stores _ mem_cons_self k'
    · exact h.stores rules hpast k'
  running := h.running
  versions := h.versions
  range := h.range
  granted := h.granted
  allocated := h.allocated
  unique := h.unique

lemma Inv.allocate (h : Inv w₀ w)
    (hrange : pool.minID = w₀.pool.minID ∧ pool.maxID = w₀.pool.maxID) (hfree : ¬ Protected w₀ id)
    (hmin : w₀.pool.cursor ≤ id) (hmax : id ≤ w₀.pool.effectiveMax)
    (hnew : ∀ x ∈ w.allocated, x.2 ≠ id) :
    Inv w₀ { w with
      pool := { pool with version := w.pool.version + 1 }
      pastPools := w.pools
      allocated := ((k, i), id) :: w.allocated } where
  secActionIDs := h.secActionIDs
  stores rules hrules k' := (h.stores rules hrules k').mono (subset_cons_self _ _)
  running t r hr :=
    (h.running t r hr).mono (subset_cons_self _ _) (subset_cons_self _ _)
  versions p hp := by
    rcases mem_cons.mp hp with rfl | hp
    · exact ⟨le_rfl, fun _ => rfl⟩
    · have hle := (h.versions p hp).1
      exact ⟨Nat.le_succ_of_le hle, fun heq => absurd heq (Nat.ne_of_lt (Nat.lt_succ_of_le hle))⟩
  range := hrange
  granted g hg := (h.granted g hg).mono (subset_cons_self _ _)
  allocated x hx := by
    rcases mem_cons.mp hx with rfl | hx
    · exact ⟨hfree, hmin, hmax⟩
    · exact h.allocated x hx
  unique := by
    rw [map_cons, nodup_cons]
    refine ⟨?_, h.unique⟩
    intro hmem
    obtain ⟨x, hx, hid⟩ := mem_map.mp hmem
    exact hnew x hx hid

/-! ## A reconcile -/

lemma Sound.begin (h : Inv w₀ w) {objects lists : K → StoredRule} (hobjects : objects ∈ w.stores)
    (hlists : lists ∈ w.stores) :
    Sound w₀ w.allocated w.pools (Reconcile.begin k (objects k) lists) where
  object := h.stores objects hobjects k
  todo := congrArg SecRuleSpec.entryIDs (h.stores objects hobjects k).spec
  assigned i a ha := by cases ha
  used id hid := by
    obtain ⟨hmem, _⟩ := Finset.mem_sdiff.mp hid
    obtain ⟨k', hclaim⟩ := mem_collectUsedIDs.mp hmem
    exact (h.stores lists hlists k').known_of_claims hclaim
  protects _ id hid := by
    -- the list claims the id, and only claims of the object are taken out
    obtain ⟨k', hk'⟩ := hid
    have hevolved := h.stores lists hlists k'
    have hclaim : id ∈ (lists k').claims := by
      rcases hk' with hexplicit | ⟨i, source, hfixed⟩
      · rw [← hevolved.spec] at hexplicit
        exact mem_append_right _ hexplicit
      · exact hevolved.mem_claims_of_fixedAt h.allPositive hfixed
    by_cases hown : id ∈ (objects k).ownClaims
    · exact Or.inr hown
    · refine Or.inl (Finset.mem_sdiff.mpr ⟨mem_collectUsedIDs.mpr ⟨k', hclaim⟩, ?_⟩)
      rwa [mem_toFinset]
  read copy hcopy := by cases hcopy

lemma Sound.entry (h : Sound w₀ allocated pools r) {m : Int} {rest : List Int}
    (htodo : r.todo = m :: rest) : (w₀.rules r.key).spec.entryIDs[r.assigned.length]? = some m := by
  have hdrop := h.todo
  rw [htodo] at hdrop
  rw [← head?_drop, ← hdrop, head?_cons]

lemma Sound.take (h : Sound w₀ allocated pools r) (htodo : r.todo ≠ [])
    (hvalid : Valid w₀ allocated r.key r.assigned.length id) (source : IDSource) :
    Sound w₀ allocated pools (r.take id source) where
  object := h.object
  todo := by
    show r.todo.tail = List.drop (r.assigned ++ [(id, source)]).length _
    rw [h.todo, tail_drop, length_append, length_singleton]
    rfl
  assigned i a ha := by
    have hget : (r.assigned ++ [(id, source)])[i]? = some a := ha
    show _ ∧ a.1 ∈ insert id r.used
    by_cases hi : i < r.assigned.length
    · rw [getElem?_append_left hi] at hget
      exact ⟨(h.assigned i a hget).1, Finset.mem_insert_of_mem (h.assigned i a hget).2⟩
    · rw [getElem?_append_right (not_lt.mp hi), getElem?_singleton] at hget
      split_ifs at hget with hzero
      obtain rfl := Option.some.inj hget
      have hlast : i = r.assigned.length := by omega
      rw [hlast]
      exact ⟨hvalid, Finset.mem_insert_self _ _⟩
  used id' hid' := by
    rcases Finset.mem_insert.mp hid' with rfl | hid'
    · exact hvalid.known
    · exact h.used id' hid'
  protects _ id' hid' := (h.protects htodo id' hid').imp_left Finset.mem_insert_of_mem
  read copy hcopy := by cases hcopy

lemma Sound.not_protected (h : Sound w₀ allocated pools r) (hc : Consistent w₀)
    (hpos : AllPositive allocated) (hallocated : ∀ x ∈ allocated, ¬ Protected w₀ x.2)
    (hfixed : r.fixed? = some none) (hid : id ∉ r.used) : ¬ Protected w₀ id := by
  intro hprotected
  obtain ⟨m, rest, htodo, hnone⟩ := fixed?_eq_some hfixed
  obtain ⟨hneeds, hids, hrule⟩ := h.object.needs_of_fixedID hpos (h.entry htodo) hnone
  -- an earlier entry has its id among the used ones
  have hearlier : ∀ j source, j < r.assigned.length → fixedAt w₀ r.key j ≠ some (id, source) := by
    intro j source hj hfixedAt
    obtain ⟨hvalid, hused⟩ := h.assigned j _ (getElem?_eq_getElem hj)
    rw [hvalid.eq_of_fixedAt hfixedAt] at hused
    exact hid hused
  have hfirst : id ∉ (w₀.rules r.key).ownClaims := by
    intro hown
    obtain ⟨j, hj, source, hfixedAt⟩ := hc.covered r.key _ hneeds id hown hprotected
    exact hearlier j source hj hfixedAt
  rw [mem_ownClaims] at hfirst
  rcases h.protects (by rw [htodo]; exact cons_ne_nil _ _) id hprotected with hused | hown
  · exact hid hused
  · rw [mem_ownClaims, hids, hrule] at hown
    rcases hown with hown | hown | hann
    · exact hfirst (Or.inl hown)
    · exact hfirst (Or.inr (Or.inl hown))
    · rcases h.object.annotatedID with hsame | ⟨id', hsome, hvalid⟩
      · rw [hsame] at hann
        exact hfirst (Or.inr (Or.inr hann))
      · -- an id that a reconcile of the run has given the first entry
        rw [hann] at hsome
        obtain rfl := Option.some.inj hsome
        rcases hvalid with ⟨source, hfixedAt⟩ | ⟨_, hmem⟩
        · by_cases hzero : r.assigned.length = 0
          · obtain ⟨m', hentry, hnone'⟩ := hneeds
            rw [hzero] at hentry hnone'
            rw [fixedAt_eq hentry, hnone'] at hfixedAt
            cases hfixedAt
          · exact hearlier 0 source (Nat.pos_of_ne_zero hzero) hfixedAt
        · exact hallocated _ hmem hprotected

/-! ## Steps -/

lemma Inv.resolve (h : Inv w₀ w) (hr : w.running t = some r) {source : IDSource}
    (hfixed : r.fixed? = some (some (id, source))) :
    Inv w₀ { w.setRunning t (some (r.take id source)) with
      granted := r.grant id source :: w.granted } := by
  have hsound := h.running t r hr
  obtain ⟨m, rest, htodo, hid⟩ := fixed?_eq_some hfixed
  have hentry := hsound.entry htodo
  have hvalid := hsound.object.valid_of_fixedID h.allPositive hentry hid
  have hgrant : Earned w₀ w.allocated (r.grant id source) := by
    refine ⟨hvalid, ?_⟩
    intro hauto
    refine ⟨m, hentry, ?_⟩
    rcases (fixedID_eq_some hid).2 with ⟨hspec, _⟩ | ⟨_, hm, _⟩
    · exact absurd (hspec.symm.trans hauto) (by decide)
    · exact hm
  refine (h.setRunning ?_).grant hgrant
  intro r' hr'
  obtain rfl := Option.some.inj hr'
  exact hsound.take (by rw [htodo]; exact cons_ne_nil _ _) hvalid source

lemma Ahead.weaken (h : Ahead w₀ (n + 1) w) : Ahead w₀ n w where
  past _ := h.past (Nat.succ_pos n)
  room := le_trans (Nat.le_succ n) h.room

lemma Ahead.of_eq (h : Ahead w₀ n w) {w' : World K} (hpool : w'.pool = w.pool)
    (hallocated : w'.allocated = w.allocated) : Ahead w₀ n w' where
  past := by rw [hpool, hallocated]; exact h.past
  room := by rw [World.room, hpool]; exact h.room

lemma Ahead.allocate (h : Ahead w₀ (n + 1) w) {w' : World K} (hle : w.pool.cursor ≤ id)
    (hskipped : ∀ z, w.pool.cursor ≤ z → z < id → z ∈ collectUsedIDs w₀.rules)
    (hallocated : w'.allocated = ((k, i), id) :: w.allocated)
    (hmax : w'.pool.effectiveMax = w.pool.effectiveMax)
    (hnext : id < w.pool.effectiveMax → w'.pool.cursor = id + 1) : Ahead w₀ n w' := by
  have hroom := h.room
  rw [World.room] at hroom
  by_cases hlast : id < w.pool.effectiveMax
  · obtain ⟨hcursor, hbelow⟩ := h.past (Nat.succ_pos n)
    refine ⟨fun _ => ?_, ?_⟩
    · rw [hnext hlast, hallocated]
      refine ⟨by omega, ?_⟩
      intro x hx
      rcases mem_cons.mp hx with rfl | hx
      · exact Int.lt_add_one_of_le le_rfl
      · have hlt := hbelow x hx
        omega
    · rw [World.room]
      refine Nat.le_of_succ_le_succ (le_trans hroom (card_freeIDs_le hskipped ?_))
      intro z hlt hle hfree
      rw [mem_freeIDs, hmax, hnext hlast]
      exact ⟨by omega, hle, hfree⟩
  · -- the last id of the pool: this was the last update
    have hcard : n + 1 ≤ (∅ : Finset Int).card + 1 := by
      refine le_trans hroom (card_freeIDs_le hskipped ?_)
      intro z hlt hle _
      omega
    rw [Finset.card_empty] at hcard
    obtain rfl : n = 0 := by omega
    exact ⟨fun hpos => absurd hpos (lt_irrefl 0), Nat.zero_le _⟩

lemma Inv.commit (h : Inv w₀ w) (hc : Consistent w₀) (hahead : Ahead w₀ (n + 1) w)
    (hr : w.running t = some r) {copy : SecRuleIDPool} (hread : r.read = some copy) :
    Inv w₀ (commit w t r copy) ∧ Ahead w₀ n (commit w t r copy) := by
  have hsound := h.running t r hr
  obtain ⟨hcopy, hfixed⟩ := hsound.read copy hread
  obtain ⟨m, rest, htodo, hnone⟩ := fixed?_eq_some hfixed
  have hentry := hsound.entry htodo
  rw [Seclang.commit]
  by_cases hversion : copy.version = w.pool.version
  · obtain rfl := (h.versions copy hcopy).2 hversion
    obtain ⟨hcursor, hbelow⟩ := hahead.past (Nat.succ_pos n)
    -- from the cursor on, a used id was claimed at the start
    have hclaimed : ∀ z ∈ r.used, w.pool.cursor ≤ z → z ∈ collectUsedIDs w₀.rules := by
      intro z hz hle
      rcases hsound.used z hz with hclaimed | ⟨e, he⟩
      · exact hclaimed
      · have hlt := hbelow _ he
        omega
    obtain ⟨y, hy⟩ : (w₀.room w).Nonempty :=
      Finset.card_pos.mp (lt_of_lt_of_le (Nat.succ_pos n) hahead.room)
    rw [World.room, mem_freeIDs] at hy
    obtain ⟨id, pool, hok, hle, hmax, hunused, hskipped, hmin', hmax', hnext⟩ :=
      allocation_of_free hy.1 hy.2.1 (fun hused => hy.2.2 (hclaimed y hused hy.1))
    have hprotected := hsound.not_protected hc h.allPositive
      (fun x hx => (h.allocated x hx).1) hfixed hunused
    have hmax₀ : w.pool.effectiveMax = w₀.pool.effectiveMax := by
      rw [SecRuleIDPool.effectiveMax, SecRuleIDPool.effectiveMax, h.range.2]
    have hgrant : Inv w₀ _ := h.allocate (k := r.key) (i := r.assigned.length)
      ⟨hmin'.trans h.range.1, hmax'.trans h.range.2⟩ hprotected (hcursor.trans hle)
      (hmax₀ ▸ hmax) (fun x hx => by have hlt := hbelow x hx; omega)
    have hneeds := (hsound.object.needs_of_fixedID h.allPositive hentry hnone).1
    have hvalid : Valid w₀ (((r.key, r.assigned.length), id) :: w.allocated) r.key
        r.assigned.length id := Or.inr ⟨hneeds, mem_cons_self⟩
    simp only [hok, if_true]
    refine ⟨(hgrant.setRunning ?_).grant ⟨hvalid, fun _ => ⟨m, hentry, ?_⟩⟩,
      hahead.allocate hle (fun z hz hlt => hclaimed z (hskipped z hz hlt) hz) rfl ?_ hnext⟩
    · intro r' hr'
      obtain rfl := Option.some.inj hr'
      exact (hsound.mono (subset_cons_self _ _) (subset_cons_self _ _)).take
        (by rw [htodo]; exact cons_ne_nil _ _) hvalid .auto
    · rw [fixedID] at hnone
      split_ifs at hnone with hm
      exact not_lt.mp hm
    · show SecRuleIDPool.effectiveMax { pool with version := _ } = _
      rw [SecRuleIDPool.effectiveMax, SecRuleIDPool.effectiveMax, hmax']
  · -- the update is refused, or there is nothing to update
    cases hallocation : allocation copy r.used with
    | error message => exact ⟨h.ended, hahead.weaken.of_eq rfl rfl⟩
    | ok found =>
      simp only [if_neg hversion]
      refine ⟨h.setRunning ?_, hahead.weaken.of_eq rfl rfl⟩
      intro r' hr'
      obtain rfl := Option.some.inj hr'
      exact ⟨hsound.object, hsound.todo, hsound.assigned, hsound.used, hsound.protects,
        fun copy hcopy => by cases hcopy⟩

lemma Sound.primary (h : Sound w₀ allocated pools r) (hpos : 0 < primaryID r.assigned) :
    Valid w₀ allocated r.key 0 (primaryID r.assigned) := by
  cases hassigned : r.assigned with
  | nil =>
    rw [hassigned] at hpos
    exact absurd hpos (lt_irrefl 0)
  | cons a rest =>
    have hget : r.assigned[0]? = some a := by rw [hassigned]; rfl
    exact (h.assigned 0 a hget).1

lemma Sound.evolved_annotated (h : Sound w₀ allocated pools r)
    (hsr : Evolved w₀ allocated r.key sr) :
    Evolved w₀ allocated r.key
      { sr with annotatedID := syncedID r.object r.assigned } where
  spec := hsr.spec
  status := hsr.status
  annotatedID := by
    rw [syncedID]
    split_ifs with hauto
    · exact Or.inr ⟨_, rfl, h.primary hauto.2⟩
    · exact h.object.annotatedID

lemma Sound.evolved_status (h : Sound w₀ allocated pools r) (htodo : r.todo = [])
    (hsr : Evolved w₀ allocated r.key sr) :
    Evolved w₀ allocated r.key
      { sr with
        status := { sr.status with
          ruleID := primaryID r.assigned, assignedIDs := r.assigned.map (·.1) } } where
  spec := hsr.spec
  status := by
    refine Or.inr ⟨?_, ?_, fun hpos => ⟨0, h.primary hpos⟩⟩
    · intro i m hentry
      -- no entry is left
      have hlength := h.todo
      rw [htodo, eq_comm, drop_eq_nil_iff] at hlength
      obtain ⟨hi, _⟩ := List.getElem?_eq_some_iff.mp hentry
      have hget := getElem?_eq_getElem (lt_of_lt_of_le hi hlength)
      refine ⟨_, ?_, (h.assigned i _ hget).1⟩
      show (r.assigned.map (·.1))[i]? = _
      rw [getElem?_map, hget, Option.map_some]
    · intro id hid
      obtain ⟨a, ha, rfl⟩ := mem_map.mp hid
      obtain ⟨i, hi⟩ := mem_iff_getElem?.mp ha
      exact ⟨i, (h.assigned i a hi).1⟩
  annotatedID := hsr.annotatedID

variable [DecidableEq K]

lemma inv_step (hc : Consistent w₀) (e : Event K) (es : List (Event K)) (w w' : World K)
    (h : Inv w₀ w ∧ Ahead w₀ ((e :: es).countP Event.isCommit) w) (hstep : step w e = some w') :
    Inv w₀ w' ∧ Ahead w₀ (es.countP Event.isCommit) w' := by
  obtain ⟨hinv, hahead⟩ := h
  have hcurrent : w.rules ∈ w.stores := mem_cons_self
  cases e with
  | start t k object list =>
    rw [step] at hstep
    split at hstep
    · rename_i objects lists hnone hobjects hlists
      obtain rfl := Option.some.inj hstep
      refine ⟨hinv.setRunning ?_, hahead.of_eq rfl rfl⟩
      intro r hr
      obtain rfl := Option.some.inj hr
      exact Sound.begin hinv (mem_of_getElem? hobjects) (mem_of_getElem? hlists)
    · cases hstep
  | resolve t =>
    simp only [step, Option.bind_eq_bind, Option.bind_eq_some_iff] at hstep
    obtain ⟨r, hr, found, hfixed, ⟨id, source⟩, rfl, hw⟩ := hstep
    obtain rfl := Option.some.inj hw
    exact ⟨hinv.resolve hr hfixed, hahead.of_eq rfl rfl⟩
  | readPool t pool =>
    simp only [step, Option.bind_eq_bind, Option.bind_eq_some_iff] at hstep
    obtain ⟨r, hr, copy, hcopy, hw⟩ := hstep
    split_ifs at hw with hfixed
    obtain rfl := Option.some.inj hw
    refine ⟨hinv.setRunning ?_, hahead.of_eq rfl rfl⟩
    intro r' hr'
    obtain rfl := Option.some.inj hr'
    have hsound := hinv.running t r hr
    refine ⟨hsound.object, hsound.todo, hsound.assigned, hsound.used, hsound.protects, ?_⟩
    intro copy' hcopy'
    obtain rfl := Option.some.inj hcopy'
    exact ⟨mem_of_getElem? hcopy, hfixed.1⟩
  | commit t =>
    simp only [step, Option.bind_eq_bind, Option.bind_eq_some_iff] at hstep
    obtain ⟨r, hr, copy, hread, hw⟩ := hstep
    obtain rfl := Option.some.inj hw
    rw [countP_cons_of_pos rfl] at hahead
    exact hinv.commit hc hahead hr hread
  | annotate t object =>
    simp only [step, Option.bind_eq_bind, Option.bind_eq_some_iff] at hstep
    obtain ⟨r, hr, hw⟩ := hstep
    have hsound := hinv.running t r hr
    split_ifs at hw with hready hversion
    · obtain ⟨objects, hobjects, hw⟩ := Option.bind_eq_some_iff.mp hw
      obtain rfl := Option.some.inj hw
      have hwritten := hinv.setRule (hsound.evolved_annotated (hinv.stores _ hcurrent r.key))
      refine ⟨hwritten.setRunning ?_, hahead.of_eq rfl rfl⟩
      intro r' hr'
      obtain rfl := Option.some.inj hr'
      refine ⟨hwritten.stores _ (mem_of_getElem? hobjects) r.key, hsound.todo,
        hsound.assigned, hsound.used, fun hne => absurd hready.1 hne, ?_⟩
      intro copy hcopy
      -- a reconcile that has the pool has an entry left
      obtain ⟨m, rest, htodo, _⟩ := fixed?_eq_some (hsound.read copy hcopy).2
      rw [hready.1] at htodo
      cases htodo
    · obtain rfl := Option.some.inj hw
      exact ⟨hinv.ended, hahead.of_eq rfl rfl⟩
  | writeStatus t =>
    simp only [step, Option.bind_eq_bind, Option.bind_eq_some_iff] at hstep
    obtain ⟨r, hr, hw⟩ := hstep
    have hsound := hinv.running t r hr
    split_ifs at hw with hready hversion
    · obtain rfl := Option.some.inj hw
      have hwritten :=
        hinv.setRule (hsound.evolved_status hready.1 (hinv.stores _ hcurrent r.key))
      exact ⟨hwritten.ended, hahead.of_eq rfl rfl⟩
    · obtain rfl := Option.some.inj hw
      exact ⟨hinv.ended, hahead.of_eq rfl rfl⟩
  | drop t =>
    obtain rfl := Option.some.inj hstep
    exact ⟨hinv.ended, hahead.of_eq rfl rfl⟩

end

end KubeWaf.Seclang
