import KubeWaf.Subresource.Semaphores
import Mathlib.Data.Set.Card

/-!
# When the caps hold

Every slot in use is to be one that a request has, and no namespace is to have more requests with a
slot than its limit. The slots of a channel add up as long as a request releases the channel that
it has sent to (`balanced_step`). An eviction that falls between the lookup of a request and its
send leaves it with a channel that the map has no longer: then the namespace gets a second channel,
and a query does not find its own channel again. Here are the runs in which that does not happen:
those with few namespaces (`capped_of_few`), and those with few slots for all requests
(`capped_of_one`, `capped_of_global`).
-/

namespace KubeWaf.Subresource

open Lib List

variable {g g' : Gate} {p : Place} {action : GateAction} {s : GateRun} {ns : String}
  {order : List (String × ℕ)} {events : List GateEvent}

/-! ## Slots add up -/

/-- The caps hold: a namespace has no more requests with a slot than its limit, and the slots in
use are those that requests have. -/
structure GateRun.Capped (limits : GateLimits) (s : GateRun) : Prop where
  perNamespace : ∀ ns, s.requests.countP (Place.holdsFor ns) ≤ limits.perNamespace
  slots : ∀ ch, s.gate.len ch = s.requests.countP (Place.holds ch)
  global : s.gate.global = s.requests.countP Place.holdsGlobal

/-- The part of it that does not depend on the map, with the capacities of the channels. -/
structure GateRun.Balanced (limits : GateLimits) (s : GateRun) : Prop where
  slots : ∀ ch, s.gate.len ch = s.requests.countP (Place.holds ch)
  global : s.gate.global = s.requests.countP Place.holdsGlobal
  len_le : ∀ ch, s.gate.len ch ≤ semCapacity limits.perNamespace
  global_le : s.gate.global ≤ limits.globalMax

/-- A query that leaves has found its own channel. -/
def Place.FindsOwn : Place → Prop
  | .found _ own sem => own = sem
  | _ => True

lemma countP_set_add {α : Type} (p : α → Bool) {l : List α} {i : ℕ} {a : α} (b : α)
    (h : l[i]? = some a) :
    (l.set i b).countP p + (p a).toNat = l.countP p + (p b).toNat := by
  obtain ⟨hi, hget⟩ := List.getElem?_eq_some_iff.mp h
  rw [countP_set hi, hget]
  have hpos : p a = true → 0 < l.countP p := fun hp =>
    countP_pos_iff.mpr ⟨a, mem_of_getElem? h, hp⟩
  cases hpa : p a with
  | false => cases p b <;> simp
  | true =>
    have := hpos hpa
    cases p b <;> simp <;> omega

lemma lookupSem_frame (g : Gate) (ns : String) (order : List (String × ℕ)) :
    (g.lookupSem ns order).1.len = g.len ∧ (g.lookupSem ns order).1.global = g.global := by
  rw [Gate.lookupSem]
  split
  · exact ⟨rfl, rfl⟩
  · dsimp only
    split_ifs
    · exact ⟨rfl, rfl⟩
    · exact ⟨rfl, rfl⟩
    · exact ⟨rfl, rfl⟩

section Balance

variable {kind : GateKind} {limits : GateLimits}

/-- What a step of a request does to the channels is what it does to the slots of the request. -/
structure StepBalance (limits : GateLimits) (g : Gate) (p : Place) (g' : Gate) (p' : Place) :
    Prop where
  slots : ∀ ch, g'.len ch + (p.holds ch).toNat = g.len ch + (p'.holds ch).toNat
  global : g'.global + p.holdsGlobal.toNat = g.global + p'.holdsGlobal.toNat
  len_le : ∀ ch, g'.len ch ≤ max (g.len ch) (semCapacity limits.perNamespace)
  global_le : g'.global ≤ g.global

lemma stepBalance_free {sem : ℕ} (hp : ∀ ch, p.holds ch = decide (some sem = some ch))
    (hglobal : p.holdsGlobal = true) (hlen : ∀ ch, p.holds ch = true → 0 < g.len ch) :
    StepBalance limits g p (g.releaseNS sem) .freed := by
  have hpos : 0 < g.len sem := hlen sem (by rw [hp]; simp)
  refine ⟨fun ch => ?_, by rw [hglobal]; rfl, fun ch => ?_, le_refl _⟩
  · show Function.update g.len sem (g.len sem - 1) ch + _ = g.len ch + 0
    by_cases hch : ch = sem
    · rw [hch, Function.update_self, hp]
      simp
      omega
    · rw [Function.update_of_ne hch, hp]
      simp [Ne.symm hch]
  · show Function.update g.len sem (g.len sem - 1) ch ≤ _
    by_cases hch : ch = sem
    · rw [hch, Function.update_self]
      omega
    · rw [Function.update_of_ne hch]
      omega

lemma stepBalance_leave (hp : ∀ ch, p.holds ch = false) (hglobal : p.holdsGlobal = true)
    (hpos : 0 < g.global) : StepBalance limits g p { g with global := g.global - 1 } .done := by
  refine ⟨fun ch => ?_, ?_, fun ch => le_max_left _ _, Nat.sub_le _ _⟩
  · show g.len ch + _ = g.len ch + 0
    rw [hp]
    rfl
  · rw [hglobal]
    show g.global - 1 + 1 = g.global + 0
    omega

lemma step_balance {p' : Place} (hfinds : p.FindsOwn)
    (hlen : ∀ ch, p.holds ch = true → 0 < g.len ch)
    (hglobal : p.holdsGlobal = true → 0 < g.global)
    (h : p.step kind limits g action = some (g', p')) : StepBalance limits g p g' p' := by
  -- a step that touches no channel
  have hsame : ∀ {g₁ : Gate} {p₁ : Place}, g₁.len = g.len → g₁.global = g.global →
      (∀ ch, p₁.holds ch = p.holds ch) → p₁.holdsGlobal = p.holdsGlobal →
      StepBalance limits g p g₁ p₁ := by
    intro g₁ p₁ hl hg hh hhg
    refine ⟨fun ch => by rw [hl, hh], by rw [hg, hhg], fun ch => ?_, hg.le⟩
    rw [hl]
    exact le_max_left _ _
  cases step_cases h with
  | looked ns order heq =>
    obtain ⟨hl, hg⟩ := lookupSem_frame g ns order
    rw [heq] at hl hg
    exact hsame hl hg (fun _ => rfl) rfl
  | full ns order heq =>
    obtain ⟨hl, hg⟩ := lookupSem_frame g ns order
    rw [heq] at hl hg
    exact hsame hl hg (fun _ => rfl) rfl
  | sent ns sem hroom =>
    refine ⟨fun ch => ?_, rfl, fun ch => ?_, le_refl _⟩
    · show Function.update g.len sem (g.len sem + 1) ch + 0
        = g.len ch + (decide (some sem = some ch)).toNat
      by_cases hch : ch = sem
      · rw [hch, Function.update_self]
        simp
      · rw [Function.update_of_ne hch]
        simp [Ne.symm hch]
    · show Function.update g.len sem (g.len sem + 1) ch ≤ _
      by_cases hch : ch = sem
      · rw [hch, Function.update_self]
        omega
      · rw [Function.update_of_ne hch]
        exact le_max_left _ _
  | busy ns sem => exact hsame rfl rfl (fun _ => rfl) rfl
  | found ns own hkind => exact hsame rfl rfl (fun _ => rfl) rfl
  | freedProbe ns sem hkind => exact stepBalance_free (fun _ => rfl) rfl hlen
  | freedQuery ns own sem =>
    obtain rfl : own = some sem := hfinds
    exact stepBalance_free (fun _ => rfl) rfl hlen
  | nothing ns own =>
    obtain rfl : own = none := hfinds
    exact hsame rfl rfl (fun _ => rfl) rfl
  | left hp =>
    rcases hp with rfl | rfl
    · exact stepBalance_leave (fun _ => rfl) rfl (hglobal rfl)
    · exact stepBalance_leave (fun _ => rfl) rfl (hglobal rfl)

lemma balanced_step {s' : GateRun} {e : GateEvent} (hs : s.Balanced limits)
    (hfinds : ∀ p ∈ s.requests, p.FindsOwn) (h : s.step kind limits e = some s') :
    s'.Balanced limits := by
  cases e with
  | enter ns =>
    obtain ⟨g', p', henter, rfl⟩ := step_enter h
    have hspec : (∀ ch, p'.holds ch = false) ∧ g'.len = s.gate.len ∧
        g'.global = s.gate.global + p'.holdsGlobal.toNat ∧
        g'.global ≤ max s.gate.global limits.globalMax := by
      rcases henter with hfull | ⟨hroom, hentered | hall⟩
      · obtain ⟨rfl, rfl⟩ := hfull
        exact ⟨fun _ => rfl, rfl, rfl, le_max_left _ _⟩
      · obtain ⟨rfl, rfl, _⟩ := hentered
        exact ⟨fun _ => rfl, rfl, rfl, le_max_of_le_right hroom⟩
      · obtain ⟨rfl, rfl, _⟩ := hall
        exact ⟨fun _ => rfl, rfl, rfl, le_max_of_le_right hroom⟩
    obtain ⟨hholds, hlen, hglobal, hle⟩ := hspec
    refine ⟨fun ch => ?_, ?_, fun ch => ?_, hle.trans (max_le hs.global_le (le_refl _))⟩
    · rw [hlen, hs.slots, countP_append, countP_singleton, hholds]
      rfl
    · rw [hglobal, hs.global, countP_append, countP_singleton]
      cases p'.holdsGlobal <;> rfl
    · rw [hlen]
      exact hs.len_le ch
  | act i action =>
    obtain ⟨p, hp, hstep⟩ := Option.bind_eq_some_iff.mp h
    obtain ⟨⟨g', p'⟩, hp', rfl⟩ := Option.map_eq_some_iff.mp hstep
    have hmem := mem_of_getElem? hp
    have hlen : ∀ ch, p.holds ch = true → 0 < s.gate.len ch := by
      intro ch hch
      rw [hs.slots]
      exact countP_pos_iff.mpr ⟨p, hmem, hch⟩
    have hglobal : p.holdsGlobal = true → 0 < s.gate.global := by
      intro hpg
      rw [hs.global]
      exact countP_pos_iff.mpr ⟨p, hmem, hpg⟩
    have hbalance := step_balance (hfinds p hmem) hlen hglobal hp'
    refine ⟨fun ch => ?_, ?_, fun ch => ?_, hbalance.global_le.trans hs.global_le⟩
    · have hcount := countP_set_add (Place.holds ch) p' hp
      have hslot := hbalance.slots ch
      have hbefore := hs.slots ch
      show g'.len ch = (s.requests.set i p').countP (Place.holds ch)
      omega
    · have hcount := countP_set_add Place.holdsGlobal p' hp
      have hslot := hbalance.global
      have hbefore := hs.global
      show g'.global = (s.requests.set i p').countP Place.holdsGlobal
      omega
    · exact (hbalance.len_le ch).trans (max_le (hs.len_le ch) (le_refl _))

lemma balanced_start : ({} : GateRun).Balanced limits :=
  ⟨fun _ => rfl, rfl, fun _ => Nat.zero_le _, Nat.zero_le _⟩

end Balance

/-! ## Requests whose channel is in the map -/

/-- The channel of a request is the one that the map has for its namespace. A query without a
namespace has no channel, and is the only one. -/
def Place.Attached (kind : GateKind) (g : Gate) : Place → Prop
  | .entered ns => kind = .query → ns ≠ ""
  | .looked ns sem => g.sems.lookup ns = some sem ∧ (kind = .query → ns ≠ "")
  | .acquired ns (some sem) => g.sems.lookup ns = some sem ∧ (kind = .query → ns ≠ "")
  | .acquired ns none => ns = ""
  | .found ns own sem => own = sem ∧ ∀ ch, own = some ch → g.sems.lookup ns = some ch
  | _ => True

lemma Place.Attached.findsOwn {kind : GateKind} (h : p.Attached kind g) : p.FindsOwn := by
  cases p with
  | found ns own sem => exact h.1
  | _ => trivial

lemma Place.Attached.mono {kind : GateKind} (h : p.Attached kind g)
    (hsems : ∀ ns ch, g.sems.lookup ns = some ch → g'.sems.lookup ns = some ch) :
    p.Attached kind g' := by
  cases p with
  | entered ns => exact h
  | looked ns sem => exact ⟨hsems _ _ h.1, h.2⟩
  | acquired ns own =>
    cases own with
    | none => exact h
    | some sem => exact ⟨hsems _ _ h.1, h.2⟩
  | found ns own sem => exact ⟨h.1, fun ch hch => hsems _ _ (h.2 ch hch)⟩
  | refused => trivial
  | freed => trivial
  | done => trivial

lemma lookup_of_lookupSem {sem : ℕ} (h : g.lookupSem ns order = (g', some sem)) :
    g'.sems.lookup ns = some sem := by
  rw [Gate.lookupSem] at h
  split at h
  · rename_i sem' hsem
    obtain ⟨rfl, hsem'⟩ := Prod.mk.inj h
    rw [hsem, hsem']
  · dsimp only at h
    split_ifs at h
    · cases h
    · obtain ⟨rfl, hsem⟩ := Prod.mk.inj h
      cases hsem
      exact AList.lookup_insert _
    · obtain ⟨rfl, hsem⟩ := Prod.mk.inj h
      cases hsem
      exact AList.lookup_insert _

lemma lookupSem_of_room (hroom : g.sems.lookup ns = none → mapLen g.sems < maxNSSemEntries)
    (ns' : String) (ch : ℕ) (h : g.sems.lookup ns' = some ch) :
    (g.lookupSem ns order).1.sems.lookup ns' = some ch := by
  rw [Gate.lookupSem]
  split
  · exact h
  · rename_i hnone
    have hlt := hroom hnone
    rw [if_neg hlt.not_ge, if_neg hlt.not_ge]
    have hne : ns' ≠ ns := by
      rintro rfl
      rw [hnone] at h
      cases h
    exact (AList.lookup_insert_ne hne).trans h

section Attached

variable {kind : GateKind} {limits : GateLimits}

lemma attached_step {p' : Place} (hp : p.Attached kind g)
    (h : p.step kind limits g action = some (g', p')) : p'.Attached kind g' := by
  cases step_cases h with
  | looked ns order heq => exact ⟨lookup_of_lookupSem heq, hp⟩
  | full ns order heq => trivial
  | sent ns sem hroom => exact hp
  | busy ns sem => trivial
  | found ns own hkind =>
    cases own with
    | none =>
      obtain rfl : ns = "" := hp
      exact ⟨rfl, fun ch hch => by cases hch⟩
    | some sem =>
      refine ⟨?_, fun ch hch => ?_⟩
      · rw [if_neg (hp.2 hkind), hp.1]
      · cases hch
        exact hp.1
  | freedProbe ns sem hkind => trivial
  | freedQuery ns own sem => trivial
  | nothing ns own => trivial
  | left hp => trivial

lemma attached_enter {s' : GateRun} (hattached : ∀ p ∈ s.requests, p.Attached kind s.gate)
    (h : s.step kind limits (.enter ns) = some s') :
    s'.gate.sems = s.gate.sems ∧ ∀ p ∈ s'.requests, p.Attached kind s'.gate := by
  obtain ⟨g', p', hcases, rfl⟩ := step_enter h
  have hspec : g'.sems = s.gate.sems ∧ p'.Attached kind g' := by
    rcases hcases with ⟨rfl, rfl⟩ | ⟨_, ⟨rfl, rfl, hne⟩ | ⟨rfl, rfl, _⟩⟩
    · exact ⟨rfl, trivial⟩
    · exact ⟨rfl, hne⟩
    · exact ⟨rfl, rfl⟩
  refine ⟨hspec.1, fun p hp => ?_⟩
  rcases mem_append.mp hp with hmem | hmem
  · exact (hattached p hmem).mono fun _ _ hch => hspec.1 ▸ hch
  · rw [mem_singleton.mp hmem]
    exact hspec.2

lemma sems_of_step {p' : Place} (h : p.step kind limits g action = some (g', p')) :
    g'.sems = g.sems ∨ ∃ ns order, p = .entered ns ∧ g' = (g.lookupSem ns order).1 := by
  cases step_cases h with
  | looked ns order heq => exact .inr ⟨ns, order, rfl, by rw [heq]⟩
  | full ns order heq => exact .inr ⟨ns, order, rfl, by rw [heq]⟩
  | sent ns sem hroom => exact .inl rfl
  | busy ns sem => exact .inl rfl
  | found ns own hkind => exact .inl rfl
  | freedProbe ns sem hkind => exact .inl rfl
  | freedQuery ns own sem => exact .inl rfl
  | nothing ns own => exact .inl rfl
  | left hp => exact .inl rfl

lemma capped_of_attached (hpos : 0 < limits.perNamespace) (hs : s.Balanced limits)
    (hattached : ∀ p ∈ s.requests, p.Attached kind s.gate) : s.Capped limits := by
  refine ⟨fun ns => ?_, hs.slots, hs.global⟩
  have hcap : semCapacity limits.perNamespace = limits.perNamespace := if_neg hpos.not_ge
  have hholds : ∀ p ∈ s.requests, p.holdsFor ns = true →
      ∃ ch, s.gate.sems.lookup ns = some ch ∧ p.holds ch = true := by
    intro p hp hfor
    have hattach := hattached p hp
    cases p with
    | acquired ns' own =>
      simp only [Place.holdsFor, Bool.and_eq_true, decide_eq_true_eq, Option.isSome_iff_exists]
        at hfor
      obtain ⟨rfl, sem, rfl⟩ := hfor
      exact ⟨sem, hattach.1, decide_eq_true rfl⟩
    | found ns' own sem =>
      simp only [Place.holdsFor, Bool.and_eq_true, decide_eq_true_eq, Option.isSome_iff_exists]
        at hfor
      obtain ⟨rfl, ch, rfl⟩ := hfor
      exact ⟨ch, hattach.2 ch rfl, decide_eq_true rfl⟩
    | _ => cases hfor
  cases hlookup : s.gate.sems.lookup ns with
  | none =>
    rw [countP_eq_zero.mpr]
    · exact Nat.zero_le _
    · intro p hp hfor
      obtain ⟨ch, hch, _⟩ := hholds p hp hfor
      rw [hlookup] at hch
      cases hch
  | some ch =>
    calc s.requests.countP (Place.holdsFor ns) ≤ s.requests.countP (Place.holds ch) := by
          refine countP_mono_left fun p hp hfor => ?_
          obtain ⟨ch', hch', hholds⟩ := hholds p hp hfor
          rw [hlookup] at hch'
          rwa [Option.some.inj hch']
      _ = s.gate.len ch := (hs.slots ch).symm
      _ ≤ limits.perNamespace := hcap ▸ hs.len_le ch

end Attached

/-! ## Few namespaces, or few requests -/

section Safe

variable {kind : GateKind} {limits : GateLimits} {N : Set String}

/-- The namespaces of the map and of the requests that are to look theirs up are in `N`. -/
structure GateRun.Keyed (N : Set String) (s : GateRun) : Prop where
  sems : ∀ ns ch, s.gate.sems.lookup ns = some ch → ns ∈ N
  entered : ∀ ns, Place.entered ns ∈ s.requests → ns ∈ N

lemma keyed_start : ({} : GateRun).Keyed N :=
  ⟨fun _ _ hch => (nomatch hch), fun _ hmem => (nomatch hmem)⟩

lemma mapLen_lt_of_lookup_none {m : GoMap String ℕ} {n : ℕ} (hN : N.encard ≤ n)
    (hkeys : ∀ ns ch, m.lookup ns = some ch → ns ∈ N) (hns : ns ∈ N) (hnone : m.lookup ns = none) :
    mapLen m < n := by
  have hnotMem : ns ∉ m.keys := AList.lookup_eq_none.mp hnone
  have hsubset : (↑(ns :: m.keys).toFinset : Set String) ⊆ N := by
    intro k hk
    rw [Finset.mem_coe, mem_toFinset, mem_cons] at hk
    rcases hk with rfl | hk
    · exact hns
    · obtain ⟨ch, hch⟩ := Option.isSome_iff_exists.mp (AList.lookup_isSome.mpr hk)
      exact hkeys k ch hch
  have hcard : (ns :: m.keys).toFinset.card = mapLen m + 1 := by
    rw [toFinset_card_of_nodup (nodup_cons.mpr ⟨hnotMem, m.keys_nodup⟩), length_cons]
    exact congrArg (· + 1) (length_map _)
  have hle := (Set.encard_le_encard hsubset).trans hN
  rw [Set.encard_coe_eq_coe_finsetCard, hcard] at hle
  exact Nat.lt_of_succ_le (by exact_mod_cast hle)

lemma lookupSem_keys {ns' : String} {ch : ℕ}
    (hroom : g.sems.lookup ns = none → mapLen g.sems < maxNSSemEntries)
    (h : (g.lookupSem ns order).1.sems.lookup ns' = some ch) :
    ns' = ns ∨ g.sems.lookup ns' = some ch := by
  rw [Gate.lookupSem] at h
  split at h
  · exact .inr h
  · rename_i hnone
    have hlt := hroom hnone
    rw [if_neg hlt.not_ge, if_neg hlt.not_ge] at h
    by_cases hns : ns' = ns
    · exact .inl hns
    · exact .inr ((AList.lookup_insert_ne hns).symm.trans h)

lemma keyed_step {s' : GateRun} {e : GateEvent} (hN : N.encard ≤ maxNSSemEntries)
    (hs : s.Keyed N) (hattached : ∀ p ∈ s.requests, p.Attached kind s.gate)
    (henter : ∀ ns, e = .enter ns → (kind = .query → ns ≠ "") → ns ∈ N)
    (h : s.step kind limits e = some s') :
    s'.Keyed N ∧ ∀ p ∈ s'.requests, p.Attached kind s'.gate := by
  cases e with
  | enter ns =>
    obtain ⟨hsems, hattached'⟩ := attached_enter hattached h
    refine ⟨⟨fun ns' ch hch => hs.sems ns' ch (hsems ▸ hch), fun ns' hmem => ?_⟩, hattached'⟩
    obtain ⟨g', p', hcases, rfl⟩ := step_enter h
    rcases mem_append.mp hmem with hmem | hmem
    · exact hs.entered ns' hmem
    · obtain rfl := mem_singleton.mp hmem
      rcases hcases with ⟨_, hp⟩ | ⟨_, ⟨_, hp, hne⟩ | ⟨_, hp, _⟩⟩
      · cases hp
      · rw [Place.entered.inj hp]
        exact henter ns rfl hne
      · cases hp
  | act i action =>
    obtain ⟨p, hp, hstep⟩ := Option.bind_eq_some_iff.mp h
    obtain ⟨⟨g', p'⟩, hp', rfl⟩ := Option.map_eq_some_iff.mp hstep
    have hmem := mem_of_getElem? hp
    -- the map keeps its entries, and gets at most the namespace of the request
    have hmap : (∀ ns ch, s.gate.sems.lookup ns = some ch → g'.sems.lookup ns = some ch) ∧
        ∀ ns ch, g'.sems.lookup ns = some ch → ns ∈ N := by
      rcases sems_of_step hp' with hsems | ⟨ns, order, rfl, rfl⟩
      · rw [hsems]
        exact ⟨fun _ _ hch => hch, hs.sems⟩
      · have hroom : s.gate.sems.lookup ns = none → mapLen s.gate.sems < maxNSSemEntries :=
          mapLen_lt_of_lookup_none hN hs.sems (hs.entered ns hmem)
        refine ⟨fun ns' ch => lookupSem_of_room hroom ns' ch, fun ns' ch hch => ?_⟩
        rcases lookupSem_keys hroom hch with rfl | hold
        · exact hs.entered ns' hmem
        · exact hs.sems ns' ch hold
    have hnotEntered : ∀ ns, p' ≠ .entered ns := by
      rintro ns rfl
      cases step_cases hp'
    refine ⟨⟨hmap.2, fun ns' hin => ?_⟩, fun q hq => ?_⟩
    · rcases mem_or_eq_of_mem_set hin with hin | heq
      · exact hs.entered ns' hin
      · exact absurd heq.symm (hnotEntered ns')
    · rcases mem_or_eq_of_mem_set hq with hq | rfl
      · exact (hattached q hq).mono hmap.1
      · exact attached_step (hattached p hmem) hp'

lemma capped_of_few (hpos : 0 < limits.perNamespace) (hN : N.encard ≤ maxNSSemEntries)
    (henter : ∀ ns, .enter ns ∈ events → (kind = .query → ns ≠ "") → ns ∈ N)
    (h : runEvents (GateRun.step kind limits) events {} = some s) : s.Capped limits := by
  have hinv := runEvents_invariant
    (fun rest s => (∀ ns, .enter ns ∈ rest → (kind = .query → ns ≠ "") → ns ∈ N) ∧
      s.Balanced limits ∧ s.Keyed N ∧ ∀ p ∈ s.requests, p.Attached kind s.gate)
    ?_ h ⟨henter, balanced_start, keyed_start, fun _ hp => nomatch hp⟩
  · exact capped_of_attached hpos hinv.2.1 hinv.2.2.2
  · rintro e rest s s' ⟨henter, hbalanced, hkeyed, hattached⟩ hstep
    have hrest : ∀ ns, .enter ns ∈ rest → (kind = .query → ns ≠ "") → ns ∈ N :=
      fun ns hmem => henter ns (mem_cons_of_mem e hmem)
    have he : ∀ ns, e = .enter ns → (kind = .query → ns ≠ "") → ns ∈ N :=
      fun ns heq => henter ns (heq ▸ mem_cons_self)
    exact ⟨hrest, balanced_step hbalanced (fun p hp => (hattached p hp).findsOwn) hstep,
      keyed_step hN hkeyed hattached he hstep⟩

lemma mem_set_of_countP_le_one {α : Type} {f : α → Bool} {l : List α} {i : ℕ} {a b q : α}
    (ha : l[i]? = some a) (hfa : f a = true) (hcount : l.countP f ≤ 1) (hq : q ∈ l.set i b) :
    q = b ∨ f q = false := by
  obtain ⟨j, hj⟩ := mem_iff_getElem?.mp hq
  rw [getElem?_set] at hj
  by_cases hij : i = j
  · rw [if_pos hij] at hj
    split at hj
    · exact .inl (Option.some.inj hj).symm
    · cases hj
  · rw [if_neg hij] at hj
    obtain ⟨hi, rfl⟩ := List.getElem?_eq_some_iff.mp ha
    have hmem : q ∈ l.eraseIdx i := mem_eraseIdx_iff_getElem?.mpr ⟨j, Ne.symm hij, hj⟩
    have hperm := (getElem_cons_eraseIdx_perm hi).countP_eq f
    rw [countP_cons_of_pos hfa] at hperm
    have hzero : (l.eraseIdx i).countP f = 0 := by omega
    exact .inr (Bool.eq_false_iff.mpr (countP_eq_zero.mp hzero q hmem))

lemma capped_of_one (hpos : 0 < limits.perNamespace) (hone : limits.globalMax ≤ 1)
    (h : runEvents (GateRun.step kind limits) events {} = some s) : s.Capped limits := by
  have hinv := runEvents_invariant
    (fun _ s => s.Balanced limits ∧ ∀ p ∈ s.requests, p.Attached kind s.gate)
    ?_ h ⟨balanced_start, fun _ hp => nomatch hp⟩
  · exact capped_of_attached hpos hinv.1 hinv.2
  · rintro e _ s s' ⟨hbalanced, hattached⟩ hstep
    refine ⟨balanced_step hbalanced (fun p hp => (hattached p hp).findsOwn) hstep, ?_⟩
    cases e with
    | enter ns => exact (attached_enter hattached hstep).2
    | act i action =>
      obtain ⟨p, hp, hact⟩ := Option.bind_eq_some_iff.mp hstep
      obtain ⟨⟨g', p'⟩, hp', rfl⟩ := Option.map_eq_some_iff.mp hact
      have hmem := mem_of_getElem? hp
      intro q hq
      rcases sems_of_step hp' with hsems | ⟨ns, order, rfl, _⟩
      · rcases mem_or_eq_of_mem_set hq with hq | rfl
        · exact (hattached q hq).mono fun _ _ hch => hsems ▸ hch
        · exact attached_step (hattached p hmem) hp'
      · have hcount : s.requests.countP Place.holdsGlobal ≤ 1 :=
          hbalanced.global ▸ hbalanced.global_le.trans hone
        rcases mem_set_of_countP_le_one hp rfl hcount hq with rfl | hdone
        · exact attached_step (hattached _ hmem) hp'
        · cases q with
          | done => trivial
          | _ => cases hdone

lemma capped_of_global (hle : limits.globalMax ≤ limits.perNamespace)
    (h : runEvents (GateRun.step .probe limits) events {} = some s) : s.Capped limits := by
  have hinv := runEvents_invariant
    (fun _ s => s.Balanced limits ∧ ∀ ns own sem, Place.found ns own sem ∉ s.requests)
    ?_ h ⟨balanced_start, fun _ _ _ hp => nomatch hp⟩
  · obtain ⟨hbalanced, _⟩ := hinv
    refine ⟨fun ns => ?_, hbalanced.slots, hbalanced.global⟩
    calc s.requests.countP (Place.holdsFor ns) ≤ s.requests.countP Place.holdsGlobal := by
          refine countP_mono_left fun p _ hfor => ?_
          cases p with
          | done => cases hfor
          | _ => rfl
      _ = s.gate.global := hbalanced.global.symm
      _ ≤ limits.perNamespace := hbalanced.global_le.trans hle
  · rintro e _ s s' ⟨hbalanced, hfound⟩ hstep
    have hfinds : ∀ p ∈ s.requests, p.FindsOwn := by
      intro p hp
      cases p with
      | found ns own sem => exact absurd hp (hfound ns own sem)
      | _ => trivial
    refine ⟨balanced_step hbalanced hfinds hstep, fun ns own sem hmem => ?_⟩
    cases e with
    | enter ns' =>
      obtain ⟨g', p', hcases, rfl⟩ := step_enter hstep
      rcases mem_append.mp hmem with hmem | hmem
      · exact hfound ns own sem hmem
      · obtain rfl := mem_singleton.mp hmem
        rcases hcases with ⟨_, hp⟩ | ⟨_, ⟨_, hp, _⟩ | ⟨_, hp, _⟩⟩
        · cases hp
        · cases hp
        · cases hp
    | act i action =>
      obtain ⟨p, hp, hact⟩ := Option.bind_eq_some_iff.mp hstep
      obtain ⟨⟨g', p'⟩, hp', rfl⟩ := Option.map_eq_some_iff.mp hact
      rcases mem_or_eq_of_mem_set hmem with hmem | rfl
      · exact hfound ns own sem hmem
      · cases step_cases hp' with
        | found ns own hkind => cases hkind

end Safe

end KubeWaf.Subresource
