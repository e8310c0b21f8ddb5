import KubeWaf.Seclang.IDAllocation
import Mathlib.Data.Finset.Order

/-!
# Distinct ids within one SecRule

`allocateIDs` goes through the entries of a SecRule in order. An entry keeps the id that it sets, or
else the id that the status has at its position; the pool serves the others. The status goes by
position while the ids that are set move with their entries, so what an edit of the bag leaves
behind decides whether the ids are distinct.
-/

namespace KubeWaf.Seclang

open Lib List

variable {id : Int} {i : ℕ}

/-- The id that the entry `i` has without the pool: the one it sets, or the one it had. -/
def keptID (sr : StoredRule) (i : ℕ) : Option Int :=
  sr.spec.entryIDs[i]?.bind fun m => (fixedID sr m i).map (·.1)

/-- The entry `i` takes its id from the pool. -/
def TakesNew (sr : StoredRule) (i : ℕ) : Prop :=
  ∃ m, sr.spec.entryIDs[i]? = some m ∧ fixedID sr m i = none

/-- What the ids of a SecRule should be, with `taken` as the ids that are not free. -/
structure DistinctIDs (sr : StoredRule) (taken : Finset Int) (ids : List Int) : Prop where
  length : ids.length = sr.spec.entryIDs.length
  positive : ∀ id ∈ ids, 0 < id
  nodup : ids.Nodup
  explicit : ∀ (i : ℕ) (m : Int), sr.spec.entryIDs[i]? = some m → 0 < m → ids[i]? = some m
  fresh : ∀ (i : ℕ) (id : Int), TakesNew sr i → ids[i]? = some id → id ∉ taken

/-- Whenever `allocateIDs` succeeds, on whatever pool, the ids are as they should be. -/
def KeepsDistinct (sr : StoredRule) (used taken : Finset Int) : Prop :=
  ∀ (σ : Type) (client : PoolClient σ) (s s' : σ) (used' : Finset Int) (result : AssignedIDs),
    allocateIDs client sr used s = (.ok result, used', s') → DistinctIDs sr taken result.assigned

/-- The ids that entries keep are distinct, and those behind an entry that takes a new one are in
use. -/
structure Settled (sr : StoredRule) (used : Finset Int) : Prop where
  distinct : ∀ i j id, keptID sr i = some id → keptID sr j = some id → i = j
  reserved : ∀ i j id, TakesNew sr i → i < j → keptID sr j = some id → id ∈ freeSelfClaims sr used

/-- Before an entry takes a new id, the ids that the SecRule had are back with its entries. -/
def Retaken (sr : StoredRule) (used : Finset Int) : Prop :=
  ∀ i, TakesNew sr i → ∀ id ∈ sr.ownClaims, 0 < id → id ∈ used → ∃ j < i, keptID sr j = some id

/-! ## Settled SecRules -/

lemma mem_freeSelfClaims {sr : StoredRule} {used : Finset Int} :
    id ∈ freeSelfClaims sr used ↔ id ∈ used ∧ id ∉ sr.ownClaims := by
  rw [freeSelfClaims, Finset.mem_sdiff, mem_toFinset]

lemma keptID_eq_some {sr : StoredRule} {m : Int} {entry : Int × IDSource}
    (hm : sr.spec.entryIDs[i]? = some m) (h : fixedID sr m i = some entry) :
    keptID sr i = some entry.1 := by
  rw [keptID, hm, Option.bind_some, h, Option.map_some]

section
variable {sr : StoredRule} {used : Finset Int} {ids : List Int}

/-- The ids of a SecRule as a run returns them. -/
structure Issued (sr : StoredRule) (free : Finset Int) (ids : List Int) : Prop where
  length : ids.length = sr.spec.entryIDs.length
  kept : ∀ i id, keptID sr i = some id → ids[i]? = some id
  new : ∀ (i : ℕ) (id : Int), TakesNew sr i → ids[i]? = some id →
    0 < id ∧ id ∉ free ∧ ∀ j < i, ids[j]? ≠ some id

lemma Issued.of_allocateIDs {σ : Type} {client : PoolClient σ} {s s' : σ} {used' : Finset Int}
    {result : AssignedIDs} (h : allocateIDs client sr used s = (.ok result, used', s')) :
    Issued sr (freeSelfClaims sr used) result.assigned := by
  obtain ⟨entries, hloop, rfl⟩ := allocateIDs_ok h
  obtain ⟨hlength, hall⟩ := resolveEntries_ok hloop
  simp only [Nat.zero_add] at hall
  refine ⟨by rw [length_map, hlength], ?_, ?_⟩
  · intro i id hid
    obtain ⟨m, hm, hfixed⟩ := Option.bind_eq_some_iff.mp hid
    obtain ⟨entry, hentry, rfl⟩ := Option.map_eq_some_iff.mp hfixed
    obtain ⟨found, hfound, hcase⟩ := hall i m hm
    rw [hentry] at hcase
    obtain hsame | hnone := hcase
    · obtain rfl := Option.some.inj hsame
      rw [getElem?_map, hfound, Option.map_some]
    · exact absurd hnone.1 (by simp)
  · intro i id hnew hid
    obtain ⟨m, hm, hnone⟩ := hnew
    obtain ⟨found, hfound, hcase⟩ := hall i m hm
    rw [getElem?_map, hfound] at hid
    obtain rfl : found.1 = id := Option.some.inj hid
    obtain hsome | ⟨-, -, hpos, hfree, hdiff⟩ := hcase
    · rw [hnone] at hsome
      cases hsome
    · refine ⟨hpos, hfree, ?_⟩
      intro j hj hsame
      rw [getElem?_map] at hsame
      obtain ⟨e, he, heq⟩ := Option.map_eq_some_iff.mp hsame
      exact hdiff j hj e he heq

lemma Issued.cases (h : Issued sr used ids) (hid : ids[i]? = some id) :
    keptID sr i = some id ∨ TakesNew sr i := by
  have hlt : i < sr.spec.entryIDs.length := h.length ▸ (List.getElem?_eq_some_iff.mp hid).1
  have hm : sr.spec.entryIDs[i]? = some sr.spec.entryIDs[i] := getElem?_eq_getElem hlt
  cases hfixed : fixedID sr sr.spec.entryIDs[i] i with
  | none => exact Or.inr ⟨_, hm, hfixed⟩
  | some entry =>
    have hkept := keptID_eq_some hm hfixed
    rw [h.kept i _ hkept] at hid
    exact Or.inl (hkept.trans hid)

lemma keptID_pos (h : keptID sr i = some id) : 0 < id := by
  obtain ⟨m, -, hfixed⟩ := Option.bind_eq_some_iff.mp h
  obtain ⟨entry, hentry, rfl⟩ := Option.map_eq_some_iff.mp hfixed
  obtain ⟨id, source⟩ := entry
  exact (fixedID_eq_some hentry).1

lemma Settled.nodup (hs : Settled sr used) (h : Issued sr (freeSelfClaims sr used) ids) :
    ids.Nodup := by
  rw [nodup_iff_getElem?_ne_getElem?]
  intro i j hij hj heq
  have hid : ids[j]? = some ids[j] := getElem?_eq_getElem hj
  obtain hkeptj | hnewj := h.cases hid
  · obtain hkepti | hnewi := h.cases (heq.trans hid)
    · exact absurd (hs.distinct i j _ hkepti hkeptj) (by omega)
    · -- the pool does not give out an id that a later entry keeps
      exact (h.new i _ hnewi (heq.trans hid)).2.1 (hs.reserved i j _ hnewi hij hkeptj)
  · exact (h.new j _ hnewj hid).2.2 i hij (heq.trans hid)

lemma Settled.distinctIDs {taken : Finset Int} (hs : Settled sr used)
    (h : Issued sr (freeSelfClaims sr used) ids)
    (hfresh : ∀ (i : ℕ) (id : Int), TakesNew sr i → ids[i]? = some id → id ∉ taken) :
    DistinctIDs sr taken ids where
  length := h.length
  positive := by
    intro id hid
    obtain ⟨i, hi⟩ := getElem?_of_mem hid
    obtain hkept | hnew := h.cases hi
    · exact keptID_pos hkept
    · exact (h.new i id hnew hi).1
  nodup := hs.nodup h
  explicit := by
    intro i m hm hpos
    exact h.kept i m (keptID_eq_some hm (if_pos hpos))
  fresh := hfresh

end

/-! ## A pool for every id -/

section
variable {sr : StoredRule} {used used' : Finset Int} {pool pool' : SecRuleIDPool}

lemma allocateOne_quiet (h : allocation pool used = .ok (id, pool')) :
    allocateOne quietClient used pool = (.ok id, pool') := by
  rw [allocateOne_eq quietClient (t := pool) rfl (fun p => ⟨p, rfl⟩), h]
  rfl

lemma resolveEntries_succeeds {todo : List Int} {k : ℕ} {b : Int}
    (hmin : pool.effectiveMin ≤ b + 1) (hcursor : pool.cursor ≤ b + 1)
    (hmax : b + todo.length < pool.effectiveMax) (hused : ∀ id ∈ used, id ≤ b)
    (hkept : ∀ (i : ℕ) (m : Int) (entry : Int × IDSource), todo[i]? = some m →
      fixedID sr m (k + i) = some entry → entry.1 ≤ b) :
    ∃ entries used' pool',
      resolveEntries quietClient sr todo k used pool = (.ok entries, used', pool') := by
  induction todo generalizing k used pool b with
  | nil => exact ⟨[], used, pool, rfl⟩
  | cons m todo ih =>
    rw [length_cons] at hmax
    push_cast at hmax
    have hrest : ∀ (i : ℕ) (m' : Int) (entry : Int × IDSource), todo[i]? = some m' →
        fixedID sr m' (k + 1 + i) = some entry → entry.1 ≤ b := by
      intro i m' entry hm' hentry
      exact hkept (i + 1) m' entry hm' (by rwa [show k + (i + 1) = k + 1 + i from by omega])
    cases hfixed : fixedID sr m k with
    | some entry =>
      have hinsert : ∀ id ∈ insert entry.1 used, id ≤ b := by
        intro id hid
        obtain rfl | hid := Finset.mem_insert.mp hid
        · exact hkept 0 m entry rfl hfixed
        · exact hused id hid
      obtain ⟨entries, used', pool', hrun⟩ := ih hmin hcursor (by omega) hinsert hrest
      refine ⟨entry :: entries, used', pool', ?_⟩
      simp [resolveEntries, resolveOneID, hfixed, hrun]
    | none =>
      -- `b + 1` is free, so that the pool gives an id up to there
      have hfree : b + 1 ∉ used := fun hmem => by
        have := hused _ hmem
        omega
      obtain ⟨id, pool', halloc, hle, -, -, hbelow, heqmin, heqmax, hnext⟩ :=
        allocation_of_free hcursor (by omega : b + 1 ≤ pool.effectiveMax) hfree
      have hid : id ≤ b + 1 := by
        by_contra hover
        exact hfree (hbelow _ hcursor (by omega))
      have hmin' : pool'.effectiveMin = pool.effectiveMin := by
        rw [SecRuleIDPool.effectiveMin, SecRuleIDPool.effectiveMin, heqmin]
      have hmax' : pool'.effectiveMax = pool.effectiveMax := by
        rw [SecRuleIDPool.effectiveMax, SecRuleIDPool.effectiveMax, heqmax]
      have hinsert : ∀ y ∈ insert id used, y ≤ b + 1 := by
        intro y hy
        obtain rfl | hy := Finset.mem_insert.mp hy
        · exact hid
        · have := hused y hy
          omega
      have hbegin : pool'.effectiveMin ≤ b + 1 + 1 := by omega
      have hcursor' : pool'.cursor ≤ b + 1 + 1 := by
        rw [hnext (by omega)]
        omega
      obtain ⟨entries, used', pool'', hrun⟩ := ih hbegin hcursor' (by omega) hinsert
        (fun i m' entry hm' hentry => by
          have := hrest i m' entry hm' hentry
          omega)
      refine ⟨(id, .auto) :: entries, used', pool'', ?_⟩
      simp [resolveEntries, resolveOneID, hfixed, allocateOne_quiet halloc, hrun]

lemma resolveEntries_first_new {todo : List Int} {k : ℕ} {m : Int}
    {entries : List (Int × IDSource)}
    (h : resolveEntries quietClient sr todo k used pool = (.ok entries, used', pool'))
    (hmax : pool.cursor ≤ pool.effectiveMax) (hm : todo[i]? = some m)
    (hnew : fixedID sr m (k + i) = none) (hearlier : ∀ j < i, ∀ m', todo[j]? = some m' →
      ∃ entry, fixedID sr m' (k + j) = some entry ∧ entry.1 ≠ pool.cursor)
    (hfree : pool.cursor ∉ used) : (entries.map (·.1))[i]? = some pool.cursor := by
  induction todo generalizing k used i entries with
  | nil => simp at hm
  | cons m₀ todo ih =>
    obtain ⟨first, rest, used₁, s₁, rfl, hfirst, hrest⟩ := resolveEntries_cons_ok h
    cases i with
    | zero =>
      obtain rfl := Option.some.inj hm
      obtain ⟨id, granted, halloc, hle, -, -, hbelow, -⟩ :=
        allocation_of_free le_rfl hmax hfree
      have hid : id = pool.cursor := by
        by_contra hne
        exact hfree (hbelow _ le_rfl (by omega))
      have hone : fixedID sr m₀ k = none := hnew
      simp only [resolveOneID, hone, allocateOne_quiet halloc] at hfirst
      have hentry : (id, IDSource.auto) = first := Except.ok.inj (congrArg Prod.fst hfirst)
      rw [map_cons, getElem?_cons_zero, ← hentry, hid]
    | succ i =>
      obtain ⟨entry, hentry, hne⟩ := hearlier 0 (by omega) m₀ rfl
      have hone : fixedID sr m₀ k = some entry := hentry
      simp only [resolveOneID, hone] at hfirst
      obtain ⟨-, hstate⟩ := Prod.mk.inj hfirst
      obtain ⟨rfl, rfl⟩ := Prod.mk.inj hstate
      rw [map_cons, getElem?_cons_succ]
      refine ih hrest hm (by rwa [show k + 1 + i = k + (i + 1) from by omega]) ?_ ?_
      · intro j hj m' hm'
        rw [show k + 1 + j = k + (j + 1) from by omega]
        exact hearlier (j + 1) (by omega) m' hm'
      · rw [Finset.mem_insert, not_or]
        exact ⟨hne.symm, hfree⟩

lemma exists_run (sr : StoredRule) (used : Finset Int) {x : Int} (hx : 0 < x) :
    ∃ pool : SecRuleIDPool, pool.cursor = x ∧ x ≤ pool.effectiveMax ∧ ∃ entries used' pool',
      resolveEntries quietClient sr sr.spec.entryIDs 0 (freeSelfClaims sr used) pool
        = (.ok entries, used', pool') := by
  let kept : Finset Int := ((List.range sr.spec.entryIDs.length).filterMap (keptID sr)).toFinset
  obtain ⟨b, hb⟩ := Finset.exists_le (insert x (freeSelfClaims sr used ∪ kept))
  have hxb : x ≤ b := hb x (Finset.mem_insert_self _ _)
  let pool : SecRuleIDPool :=
    { minID := x, maxID := b + sr.spec.entryIDs.length + 1, nextID := x }
  have hmin : pool.effectiveMin = x := if_neg (not_le.mpr hx)
  have hmax : pool.effectiveMax = b + sr.spec.entryIDs.length + 1 := if_neg (by
    show ¬ b + sr.spec.entryIDs.length + 1 ≤ 0
    omega)
  have hcursor : pool.cursor = x := by
    rw [SecRuleIDPool.cursor, hmin, if_neg (lt_irrefl x)]
  refine ⟨pool, hcursor, by omega, ?_⟩
  refine resolveEntries_succeeds (b := b) (by omega) (by omega) (by omega) ?_ ?_
  · intro id hid
    exact hb id (Finset.mem_insert_of_mem (Finset.mem_union_left _ hid))
  · intro i m entry hm hentry
    rw [Nat.zero_add] at hentry
    have hkept := keptID_eq_some hm hentry
    refine hb _ (Finset.mem_insert_of_mem (Finset.mem_union_right _ ?_))
    rw [mem_toFinset, mem_filterMap]
    exact ⟨i, mem_range.mpr (List.getElem?_eq_some_iff.mp hm).1, hkept⟩

lemma exists_run_first_new {x : Int} (hx : 0 < x) (hnew : TakesNew sr i)
    (hfirst : ∀ j < i, ¬ TakesNew sr j) (hkept : ∀ j < i, keptID sr j ≠ some x)
    (hfree : x ∉ freeSelfClaims sr used) :
    ∃ pool used' pool' result, allocateIDs quietClient sr used pool = (.ok result, used', pool')
      ∧ result.assigned[i]? = some x := by
  obtain ⟨pool, hcursor, hmax, entries, used', pool', hrun⟩ := exists_run sr used hx
  refine ⟨pool, used', pool', ⟨entries.map (·.1), primaryID entries, idSource entries⟩, ?_, ?_⟩
  · simp [allocateIDs, hrun]
  · obtain ⟨m, hm, hnone⟩ := hnew
    rw [← hcursor]
    refine resolveEntries_first_new hrun (hcursor ▸ hmax) hm (by rwa [Nat.zero_add]) ?_
      (hcursor ▸ hfree)
    intro j hj m' hm'
    rw [Nat.zero_add, hcursor]
    cases hentry : fixedID sr m' j with
    | none => exact absurd ⟨m', hm', hentry⟩ (hfirst j hj)
    | some entry =>
      refine ⟨entry, rfl, fun heq => hkept j hj ?_⟩
      rw [keptID_eq_some hm' hentry, heq]

lemma exists_first_new (h : TakesNew sr i) :
    ∃ i₀ ≤ i, TakesNew sr i₀ ∧ ∀ j < i₀, ¬ TakesNew sr j := by
  classical
  exact ⟨Nat.find ⟨i, h⟩, Nat.find_min' _ h, Nat.find_spec ⟨i, h⟩, fun j hj => Nat.find_min _ hj⟩

end

/-! ## Which SecRules get distinct ids -/

section
variable {sr : StoredRule} {used taken : Finset Int}

lemma KeepsDistinct.eq_of_kept (h : KeepsDistinct sr used taken) {j : ℕ}
    (hi : keptID sr i = some id) (hj : keptID sr j = some id) : i = j := by
  obtain ⟨pool, -, -, entries, used', pool', hrun⟩ := exists_run sr used one_pos
  have hall : allocateIDs quietClient sr used pool
      = (.ok ⟨entries.map (·.1), primaryID entries, idSource entries⟩, used', pool') := by
    simp [allocateIDs, hrun]
  have hissued := Issued.of_allocateIDs hall
  have hgeti := hissued.kept i id hi
  exact (getElem?_inj (List.getElem?_eq_some_iff.mp hgeti).1
    (h _ _ _ _ _ _ hall).nodup).mp (hgeti.trans (hissued.kept j id hj).symm)

lemma KeepsDistinct.settled (h : KeepsDistinct sr used taken) : Settled sr used where
  distinct := fun i j id => h.eq_of_kept
  reserved := by
    intro i j id hnew hij hj
    by_contra hfree
    obtain ⟨i₀, hle, hnew₀, hfirst⟩ := exists_first_new hnew
    have hkept : ∀ j' < i₀, keptID sr j' ≠ some id := by
      intro j' hj' hsame
      have := h.eq_of_kept hsame hj
      omega
    obtain ⟨pool, used', pool', result, hrun, hgot⟩ :=
      exists_run_first_new (keptID_pos hj) hnew₀ hfirst hkept hfree
    have hsame : i₀ = j := (getElem?_inj (List.getElem?_eq_some_iff.mp hgot).1
      (h _ _ _ _ _ _ hrun).nodup).mp (hgot.trans ((Issued.of_allocateIDs hrun).kept j id hj).symm)
    omega

lemma KeepsDistinct.retaken (h : KeepsDistinct sr used used) : Retaken sr used := by
  intro i hnew id hown hpos hused
  obtain ⟨i₀, hle, hnew₀, hfirst⟩ := exists_first_new hnew
  by_contra hnone
  have hkept : ∀ j < i₀, keptID sr j ≠ some id := fun j hj hsame =>
    hnone ⟨j, by omega, hsame⟩
  have hfree : id ∉ freeSelfClaims sr used := fun hmem => (mem_freeSelfClaims.mp hmem).2 hown
  obtain ⟨pool, used', pool', result, hrun, hgot⟩ :=
    exists_run_first_new hpos hnew₀ hfirst hkept hfree
  exact (h _ _ _ _ _ _ hrun).fresh i₀ id hnew₀ hgot hused

end

/-! ## A rule inserted in front -/

/-- `mixedBag` with a rule without an id in front, and the status of before. -/
def insertedRule : StoredRule where
  spec := { secRules := [{}, { metadata := some { id := 500 } }, {}] }
  status := { ruleID := 500, assignedIDs := [500, 100000] }

end KubeWaf.Seclang
