import KubeWaf.Seclang.IDPoolSafety
import Mathlib

/-!
# Collisions of auto ids

From a consistent start, no auto id collides with another id until the cursor of the pool wraps.
The pool knows nothing of the ids that a SecAction sets, and once the cursor has come round it can
grant an id again that a stale list does not show.
-/

namespace KubeWaf.Seclang

open Lib List

section
variable {K : Type}

/-- A cluster on which no reconcile has run yet. -/
def World.initial (rules : K → StoredRule) (secActionIDs : List Int) (pool : SecRuleIDPool) :
    World K :=
  { rules, secActionIDs, pool }

/-- An auto id is the id of another entry, or one that a SecRule or a SecAction sets. -/
def Collides (w : World K) (g : Grant K) : Prop :=
  (∃ g' ∈ w.granted, (g'.key, g'.index) ≠ (g.key, g.index) ∧ g'.id = g.id)
    ∨ (∃ k, g.id ∈ (w.rules k).spec.explicitIDs) ∨ g.id ∈ w.secActionIDs

/-- No auto id that has been granted collides. -/
def CollisionFree (w : World K) : Prop :=
  ∀ g ∈ w.granted, g.source = .auto → ¬ Collides w g

variable {w₀ w : World K} {allocated : List ((K × ℕ) × Int)} {id : Int} {g : Grant K}

lemma Earned.auto_cases (h : Earned w₀ allocated g) (hauto : g.source = .auto) :
    fixedAt w₀ g.key g.index = some (g.id, .auto) ∨ ((g.key, g.index), g.id) ∈ allocated := by
  rcases h.valid with ⟨source, hfixed⟩ | ⟨_, hmem⟩
  · obtain ⟨m, hentry, hm⟩ := h.auto hauto
    have hid := hfixed
    rw [fixedAt_eq hentry] at hid
    obtain ⟨hpos, hcases⟩ := fixedID_eq_some hid
    rcases hcases with ⟨_, heq⟩ | ⟨rfl, _⟩
    · omega
    · exact Or.inl hfixed
  · exact Or.inr hmem

lemma explicit_or_auto_of_fixedAt {k : K} {i : ℕ} {source : IDSource}
    (h : fixedAt w₀ k i = some (id, source)) :
    id ∈ (w₀.rules k).spec.explicitIDs ∨ fixedAt w₀ k i = some (id, .auto) := by
  obtain ⟨m, hentry, hm⟩ := entry_of_fixedAt h
  obtain ⟨hpos, hcases⟩ := fixedID_eq_some hm
  rcases hcases with ⟨_, rfl⟩ | ⟨rfl, _⟩
  · exact Or.inl (mem_explicitIDs (mem_of_getElem? hentry) hpos)
  · exact Or.inr h

lemma consistent_of_new {rules : K → StoredRule} {secActionIDs : List Int} {pool : SecRuleIDPool}
    (hnew : ∀ k, (rules k).ownClaims = [])
    (hactions : ∀ id ∈ secActionIDs, pool.cursor ≤ id → id ≤ pool.effectiveMax →
      ∃ k, id ∈ (rules k).spec.explicitIDs) :
    Consistent (World.initial rules secActionIDs pool) := by
  have hauto : ∀ k i id, fixedAt (World.initial rules secActionIDs pool) k i ≠ some (id, .auto) := by
    intro k i id hfixed
    obtain ⟨m, _, hm⟩ := entry_of_fixedAt hfixed
    rcases (fixedID_eq_some hm).2 with ⟨hspec, _⟩ | ⟨_, _, _, hown⟩
    · cases hspec
    · exact not_mem_nil (hnew k ▸ hown)
  exact
    { distinct := fun k i k' i' id hfixed _ => absurd hfixed (hauto k i id)
      explicit := fun k i id hfixed => absurd hfixed (hauto k i id)
      covered := fun k i _ id hown _ => absurd (hnew k ▸ hown) not_mem_nil
      secActions := hactions }

variable [Fintype K]

lemma Inv.initial (rules : K → StoredRule) (secActionIDs : List Int) (pool : SecRuleIDPool) :
    Inv (World.initial rules secActionIDs pool) (World.initial rules secActionIDs pool) where
  secActionIDs := rfl
  stores rules' hrules' k := by
    obtain rfl := mem_singleton.mp hrules'
    exact ⟨rfl, Or.inl ⟨rfl, rfl⟩, Or.inl rfl⟩
  running t r hr := by cases hr
  versions p hp := by
    obtain rfl := mem_singleton.mp hp
    exact ⟨le_rfl, fun _ => rfl⟩
  range := ⟨rfl, rfl⟩
  granted g hg := absurd hg not_mem_nil
  allocated x hx := absurd hx not_mem_nil
  unique := nodup_nil

lemma Inv.eq_of_allocated (h : Inv w₀ w) {e e' : K × ℕ} (he : (e, id) ∈ w.allocated)
    (he' : (e', id) ∈ w.allocated) : e = e' :=
  congrArg Prod.fst (inj_on_of_nodup_map h.unique he he' rfl)

lemma Inv.not_collides_of_fixedAt (h : Inv w₀ w) (hc : Consistent w₀)
    (hfixed : fixedAt w₀ g.key g.index = some (g.id, .auto)) : ¬ Collides w g := by
  obtain ⟨hexplicit, hactions⟩ := hc.explicit _ _ _ hfixed
  intro hcollides
  rcases hcollides with ⟨g', hg', hne, hid⟩ | ⟨k, hk⟩ | haction
  · rcases (h.granted g' hg').valid with ⟨source, hfixed'⟩ | ⟨_, hmem⟩
    · rw [hid] at hfixed'
      rcases explicit_or_auto_of_fixedAt hfixed' with hset | hauto
      · exact hexplicit g'.key hset
      · obtain ⟨hkey, hindex⟩ := hc.distinct _ _ _ _ _ hauto hfixed
        exact hne (Prod.ext hkey hindex)
    · rw [hid] at hmem
      exact (h.allocated _ hmem).1 ⟨g.key, Or.inr ⟨g.index, .auto, hfixed⟩⟩
  · rw [(h.stores w.rules mem_cons_self k).spec] at hk
    exact hexplicit k hk
  · rw [h.secActionIDs] at haction
    exact hactions haction

lemma Inv.not_collides_of_allocated (h : Inv w₀ w) (hc : Consistent w₀)
    (hmem : ((g.key, g.index), g.id) ∈ w.allocated) : ¬ Collides w g := by
  obtain ⟨hprotected, hmin, hmax⟩ := h.allocated _ hmem
  intro hcollides
  rcases hcollides with ⟨g', hg', hne, hid⟩ | ⟨k, hk⟩ | haction
  · rcases (h.granted g' hg').valid with ⟨source, hfixed⟩ | ⟨_, hmem'⟩
    · rw [hid] at hfixed
      exact hprotected ⟨g'.key, Or.inr ⟨g'.index, source, hfixed⟩⟩
    · rw [hid] at hmem'
      exact hne (h.eq_of_allocated hmem' hmem)
  · rw [(h.stores w.rules mem_cons_self k).spec] at hk
    exact hprotected ⟨k, Or.inl hk⟩
  · rw [h.secActionIDs] at haction
    obtain ⟨k, hk⟩ := hc.secActions g.id haction hmin hmax
    exact hprotected ⟨k, Or.inl hk⟩

variable [DecidableEq K]

instance (w : World K) (g : Grant K) : Decidable (Collides w g) :=
  inferInstanceAs (Decidable (_ ∨ _ ∨ _))

instance (w : World K) : Decidable (CollisionFree w) :=
  inferInstanceAs (Decidable (∀ g ∈ w.granted, _))

/-- From a consistent start, no auto id collides in a run of any number of reconciles, as long as
the pool has a free id behind the cursor for each of its updates. -/
theorem collisionFree_of_consistent (rules : K → StoredRule) (secActionIDs : List Int)
    (pool : SecRuleIDPool) (hc : Consistent (World.initial rules secActionIDs pool))
    (events : List (Event K))
    (hroom : events.countP Event.isCommit ≤ (pool.freeIDs (collectUsedIDs rules)).card)
    (w : World K) (hrun : runEvents step events (World.initial rules secActionIDs pool) = some w) :
    CollisionFree w := by
  have hahead : Ahead (World.initial rules secActionIDs pool) (events.countP Event.isCommit)
      (World.initial rules secActionIDs pool) :=
    ⟨fun _ => ⟨le_rfl, fun x hx => absurd hx not_mem_nil⟩, hroom⟩
  obtain ⟨hinv, _⟩ := runEvents_invariant
    (fun es w => Inv (World.initial rules secActionIDs pool) w
      ∧ Ahead (World.initial rules secActionIDs pool) (es.countP Event.isCommit) w)
    (inv_step hc) hrun ⟨Inv.initial rules secActionIDs pool, hahead⟩
  intro g hg hauto
  rcases (hinv.granted g hg).auto_cases hauto with hfixed | hmem
  · exact hinv.not_collides_of_fixedAt hc hfixed
  · exact hinv.not_collides_of_allocated hc hmem

end

/-! ## Runs -/

/-- A SecRule of one entry that sets an id, or none for 0. -/
def newRule (id : Int) : StoredRule := { spec := { metadata := some { id } } }

section ThreeRules

-- what the numerals of `Fin 3` in the definitions below rest on
local instance neZero_three : NeZero 3 := ⟨by decide⟩

/-- Two SecRules without an id beside one with the first id of the pool. -/
def newRules (k : Fin 3) : StoredRule := newRule (if k = 2 then 100000 else 0)

/-- The first two SecRules read the pool at the same time; the second of them has its update
refused and reads again. -/
def contendedUpdate : List (Event (Fin 3)) :=
  [.start 0 0 0 0, .start 1 1 0 0, .readPool 0 0, .readPool 1 0, .commit 0, .commit 1,
    .readPool 1 0, .commit 1, .annotate 0 0, .writeStatus 0, .start 0 2 0 0, .resolve 0]

end ThreeRules

theorem collisionFree_contendedUpdate :
    ∃ w, runEvents step contendedUpdate (World.initial newRules [42] { maxID := 100009 }) = some w
      ∧ w.granted.map (fun g => (g.key, g.id)) = [(2, 100000), (1, 100002), (0, 100001)]
      ∧ CollisionFree w := by
  have hc : Consistent (World.initial newRules [42] { maxID := 100009 }) :=
    consistent_of_new (by decide) (by decide)
  exact ⟨_, rfl, by decide,
    collisionFree_of_consistent _ _ _ hc contendedUpdate (by decide) _ rfl⟩

/-- A SecAction with the first id of the pool: the first SecRule without an id gets the same. -/
theorem secAction_id_granted :
    ∃ w, runEvents step [.start 0 () 0 0, .readPool 0 0, .commit 0]
        (World.initial (K := Unit) (fun _ => newRule 0) [100000] {}) = some w
      ∧ ¬ CollisionFree w :=
  ⟨_, rfl, by decide⟩

-- A pool of two ids and three SecRules without one. The list of the last reconcile is from before
-- the first SecRule had its id; by the time it takes one, the cursor has come round to that id.
example :
    ∃ w, runEvents step
        [.start 2 2 0 0, .start 0 0 0 0, .readPool 0 0, .commit 0, .annotate 0 0, .writeStatus 0,
          .start 1 1 0 0, .readPool 1 0, .commit 1, .readPool 2 0, .commit 2]
        (World.initial (K := Fin 3) (fun _ => newRule 0) [] { maxID := 100001 }) = some w
      ∧ w.granted.map (fun g => (g.key, g.id)) = [(2, 100000), (1, 100001), (0, 100000)] :=
  ⟨_, rfl, by decide⟩

end KubeWaf.Seclang
