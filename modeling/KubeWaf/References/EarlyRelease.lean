import KubeWaf.References.Lifecycle

/-!
# The finalizer of a referenced rule

A rule with a back reference to an owner that exists keeps the finalizer of the reference as long as
nobody deletes the rule, and no longer: the reconciler of a rule with a deletion mark takes the
finalizer off whether or not the owners are there. The cleanup of a deleted owner does take the
finalizer off the rules that have no other owner recorded.
-/

namespace KubeWaf.References

open Lib Seclang List

/-- Some back reference is to an owner that exists. -/
def Lifecycle.Names (s : Lifecycle) (refs : List RuleSetRef) : Prop :=
  ∃ ref ∈ refs, ∃ owner, (s.owners owner).isSome = true ∧
    matchesOwner ref owner.kind.text owner.name owner.ns = true

/-- A rule with the finalizer has it after a step too, if it has a back reference then to an owner
that exists then. -/
def Kept (k : RuleKey) (s s' : Lifecycle) : Prop :=
  ∀ x, s.rules k = some x → ruleSetRefFinalizer ∈ x.finalizers →
    match s'.rules k with
    | some x' => s'.Names x'.object → ruleSetRefFinalizer ∈ x'.finalizers
    | none => ¬s'.Names x.object

/-- The cleanup of the only owner that a rule has recorded takes the finalizer off, and the rule
goes away if it is deleted and has no other finalizer. -/
def Released (k : RuleKey) (e : LifecycleEvent) (s s' : Lifecycle) : Prop :=
  ∀ owner typeMeta y x, e = .reconcileOwner owner typeMeta → s.owners owner = some y →
    y.deleting = true → s.rules k = some x → x.object ≠ [] →
    (∀ ref ∈ x.object, matchesOwner ref owner.kind.text owner.name owner.ns = true) →
    (∀ x', s'.rules k = some x' → ruleSetRefFinalizer ∉ x'.finalizers) ∧
      (x.deleting = true → (∀ f ∈ x.finalizers, f = ruleSetRefFinalizer) → s'.rules k = none)

def LifecycleEvent.user? : LifecycleEvent → Option UserEvent
  | .user e => some e
  | _ => none

/-! ## Cleaning up -/

section
variable {x : Rule} {ownerKind ownerName ownerNS : String}

lemma ownerKindOf_typeMeta (owner : OwnerKey) (typeMeta : Bool) :
    ownerKindOf (if typeMeta then owner.kind.text else "") owner = owner.kind.text := by
  unfold ownerKindOf
  cases typeMeta with
  | false => rfl
  | true => exact ite_self _

lemma stripBackRef_of_forall (hne : x.object ≠ [])
    (hall : ∀ ref ∈ x.object, matchesOwner ref ownerKind ownerName ownerNS = true) :
    stripBackRef x ownerKind ownerName ownerNS =
      (x.withObject []).removeFinalizers [ruleSetRefFinalizer] := by
  have hfiltered : (x.object.filter fun ref => !matchesOwner ref ownerKind ownerName ownerNS) =
      [] := by
    rw [filter_eq_nil_iff]
    intro ref href
    rw [hall ref href]
    decide
  have hremoved : (x.object.any fun ref => matchesOwner ref ownerKind ownerName ownerNS) = true := by
    obtain ⟨ref, href⟩ := exists_mem_of_ne_nil _ hne
    exact any_eq_true.mpr ⟨ref, href, hall ref href⟩
  unfold stripBackRef filterRefs
  simp [hfiltered, hremoved]

lemma stripBackRef_of_alive (h : x.deleting = false) :
    ∃ x', stripBackRef x ownerKind ownerName ownerNS = some x' ∧ x'.deleting = false ∧
      (x'.object = [] ∨ x'.finalizers = x.finalizers) := by
  unfold stripBackRef filterRefs
  simp only
  split
  · exact ⟨x, rfl, h, .inr rfl⟩
  · split
    · exact ⟨_, rfl, h, .inr rfl⟩
    case isFalse hlength =>
      have hnil : (x.object.filter fun ref => !matchesOwner ref ownerKind ownerName ownerNS) = [] :=
        length_eq_zero_iff.mp (Nat.eq_zero_of_not_pos hlength)
      rw [hnil]
      obtain ⟨x', hx'⟩ := Finalized.exists_removeFinalizers
        (show (x.withObject []).deleting = false from h) [ruleSetRefFinalizer]
      obtain ⟨hobject, hdeleting, -⟩ := Finalized.removeFinalizers_eq_some hx'
      exact ⟨x', hx', hdeleting.trans h, .inl hobject⟩

end

lemma step_reconcileOwner_rules {s : Lifecycle} {owner : OwnerKey} {y : Owner}
    (hy : s.owners owner = some y) (hdeleting : y.deleting = true) (typeMeta : Bool) (k : RuleKey) :
    (s.step (.reconcileOwner owner typeMeta)).rules k =
      (s.rules k).bind fun x => stripBackRef x owner.kind.text owner.name owner.ns := by
  simp [Lifecycle.step, hy, reconcileOwner, hdeleting, cleanupBackReferences, ownerKindOf_typeMeta]

lemma released_step (k : RuleKey) (e : LifecycleEvent) (s : Lifecycle) :
    Released k e s (s.step e) := by
  rintro owner typeMeta y x rfl hy hdeleting hx hne hall
  have hstep : (s.step (.reconcileOwner owner typeMeta)).rules k =
      (x.withObject []).removeFinalizers [ruleSetRefFinalizer] := by
    rw [step_reconcileOwner_rules hy hdeleting, hx]
    exact stripBackRef_of_forall hne hall
  rw [hstep]
  constructor
  · intro x' hx' hmem
    have hnot := (((Finalized.removeFinalizers_eq_some hx').2.2 _).mp hmem).2
    exact hnot mem_cons_self
  · intro hx_deleting honly
    cases hremove : (x.withObject []).removeFinalizers [ruleSetRefFinalizer] with
    | none => rfl
    | some x' =>
      obtain ⟨-, hsame, hmem⟩ := Finalized.removeFinalizers_eq_some hremove
      -- what holds a deleted rule would have to be a finalizer of another name
      obtain ⟨f, hf⟩ := exists_mem_of_ne_nil _ (x'.held (hsame.trans hx_deleting))
      obtain ⟨hf_mem, hf_not⟩ := (hmem f).mp hf
      exact absurd (mem_singleton.mpr (honly f hf_mem)) hf_not

/-! ## A rule that nobody deletes -/

lemma step_alive {s : Lifecycle} {k : RuleKey} {x : Rule} {e : LifecycleEvent}
    (hx : s.rules k = some x) (hdeleting : x.deleting = false) (he : e ≠ .user (.deleteRule k)) :
    ∃ x', (s.step e).rules k = some x' ∧ x'.deleting = false ∧
      (ruleSetRefFinalizer ∈ x.finalizers →
        x'.object = [] ∨ ruleSetRefFinalizer ∈ x'.finalizers) := by
  have hsame : ∃ x', s.rules k = some x' ∧ x'.deleting = false ∧
      (ruleSetRefFinalizer ∈ x.finalizers →
        x'.object = [] ∨ ruleSetRefFinalizer ∈ x'.finalizers) := ⟨x, hx, hdeleting, .inr⟩
  have hadd : ∀ f, (x.addFinalizer f).deleting = false ∧ (ruleSetRefFinalizer ∈ x.finalizers →
      (x.addFinalizer f).object = [] ∨ ruleSetRefFinalizer ∈ (x.addFinalizer f).finalizers) :=
    fun f => ⟨(x.addFinalizer_deleting f).trans hdeleting,
      fun hmem => .inr (Finalized.mem_addFinalizer hmem)⟩
  cases e with
  | user e =>
    cases e with
    | createRule k' =>
      by_cases hk : k = k'
      · rw [← hk]
        refine ⟨x, ?_, hdeleting, .inr⟩
        simp [Lifecycle.step, Lifecycle.userStep, hx]
      · rwa [Lifecycle.step, Lifecycle.userStep, Lifecycle.setRule_rules_of_ne _ _ _ hk]
    | deleteRule k' =>
      have hk : k ≠ k' := fun hk => he (by rw [hk])
      rwa [Lifecycle.step, Lifecycle.userStep, Lifecycle.setRule_rules_of_ne _ _ _ hk]
    | createOwner owner => exact hsame
    | deleteOwner owner => exact hsame
  | lock owner k' =>
    simp only [Lifecycle.step]
    split
    · by_cases hk : k = k'
      · rw [← hk, Lifecycle.setRule_rules_self, hx]
        exact ⟨_, rfl, hadd _⟩
      · rwa [Lifecycle.setRule_rules_of_ne _ _ _ hk]
    · exact hsame
  | lockRuleSet owner ruleSet =>
    simp only [Lifecycle.step]
    split
    · exact hsame
    · exact hsame
  | reconcileRule k' fetchFails =>
    by_cases hk : k = k'
    · rw [← hk, Lifecycle.step, Lifecycle.setRule_rules_self, hx]
      refine ⟨x.addFinalizer finalizer, ?_, hadd _⟩
      simp [reconcileRule, hdeleting]
    · rwa [Lifecycle.step, Lifecycle.setRule_rules_of_ne _ _ _ hk]
  | reconcileOwner owner typeMeta =>
    cases hy : s.owners owner with
    | none =>
      simp only [Lifecycle.step, hy]
      exact hsame
    | some y =>
      cases hy_deleting : y.deleting with
      | false =>
        simp only [Lifecycle.step, hy, reconcileOwner, hy_deleting, Bool.false_eq_true, if_false,
          Lifecycle.setOwner_rules]
        exact hsame
      | true =>
        rw [step_reconcileOwner_rules hy hy_deleting, hx]
        obtain ⟨x', hx', hx'_deleting, hkept⟩ : ∃ x',
            stripBackRef x owner.kind.text owner.name owner.ns = some x' ∧ _ :=
          stripBackRef_of_alive hdeleting
        refine ⟨x', hx', hx'_deleting, fun hmem => hkept.imp id fun hfinalizers => ?_⟩
        rw [hfinalizers]
        exact hmem

lemma kept_of_alive {s : Lifecycle} {k : RuleKey} {x : Rule} {e : LifecycleEvent}
    (hx : s.rules k = some x) (hdeleting : x.deleting = false) (he : e ≠ .user (.deleteRule k)) :
    Kept k s (s.step e) := by
  obtain ⟨x', hx', -, hkept⟩ := step_alive hx hdeleting he
  intro x₀ hx₀ hmem
  obtain rfl : x = x₀ := Option.some.inj (hx.symm.trans hx₀)
  rw [hx']
  rintro ⟨ref, href, _⟩
  refine (hkept hmem).resolve_left ?_
  rintro hnil
  rw [hnil] at href
  cases href

lemma run_alive {s : Lifecycle} {k : RuleKey} {x : Rule} {events : List LifecycleEvent}
    (hx : s.rules k = some x) (hdeleting : x.deleting = false)
    (hevents : .user (.deleteRule k) ∉ events) :
    ∃ x', (s.run events).rules k = some x' ∧ x'.deleting = false := by
  induction events generalizing s x with
  | nil => exact ⟨x, hx, hdeleting⟩
  | cons e events ih =>
    obtain ⟨hne, hrest⟩ := not_or.mp (mt mem_cons.mpr hevents)
    obtain ⟨x', hx', hx'_deleting, -⟩ := step_alive hx hdeleting (Ne.symm hne)
    exact ih hx' hx'_deleting hrest

/-! ## A rule that somebody deletes -/

/-- A rule and an owner that both have finalizers, so that no user can make them go away. -/
structure Pinned (k : RuleKey) (refs : List RuleSetRef) (owner : OwnerKey) (s : Lifecycle) : Prop where
  rule : ∃ x, s.rules k = some x ∧ x.object = refs ∧ ruleSetRefFinalizer ∈ x.finalizers
  owner : ∃ y, s.owners owner = some y ∧ y.finalizers ≠ []

section
variable {s : Lifecycle} {k : RuleKey} {refs : List RuleSetRef} {owner : OwnerKey}

lemma Pinned.userStep (h : Pinned k refs owner s) (e : UserEvent) :
    Pinned k refs owner (s.userStep e) := by
  obtain ⟨⟨x, hx, hrefs, hmem⟩, ⟨y, hy, hne⟩⟩ := h
  cases e with
  | createRule k' =>
    refine ⟨?_, y, hy, hne⟩
    by_cases hk : k = k'
    · refine ⟨x, ?_, hrefs, hmem⟩
      rw [← hk, Lifecycle.userStep, Lifecycle.setRule_rules_self, hx]
      rfl
    · rw [Lifecycle.userStep, Lifecycle.setRule_rules_of_ne _ _ _ hk]
      exact ⟨x, hx, hrefs, hmem⟩
  | deleteRule k' =>
    refine ⟨?_, y, hy, hne⟩
    by_cases hk : k = k'
    · obtain ⟨x', hx'⟩ := Finalized.exists_delete hmem
      obtain ⟨hobject, hfinalizers, -⟩ := Finalized.delete_eq_some hx'
      rw [← hk, Lifecycle.userStep, Lifecycle.setRule_rules_self, hx]
      exact ⟨x', hx', hobject.trans hrefs, hfinalizers ▸ hmem⟩
    · rw [Lifecycle.userStep, Lifecycle.setRule_rules_of_ne _ _ _ hk]
      exact ⟨x, hx, hrefs, hmem⟩
  | createOwner owner' =>
    refine ⟨⟨x, hx, hrefs, hmem⟩, ?_⟩
    by_cases howner : owner = owner'
    · refine ⟨y, ?_, hne⟩
      rw [← howner, Lifecycle.userStep, Lifecycle.setOwner_owners_self, hy]
      rfl
    · rw [Lifecycle.userStep, Lifecycle.setOwner_owners_of_ne _ _ _ howner]
      exact ⟨y, hy, hne⟩
  | deleteOwner owner' =>
    refine ⟨⟨x, hx, hrefs, hmem⟩, ?_⟩
    by_cases howner : owner = owner'
    · obtain ⟨f, hf⟩ := exists_mem_of_ne_nil _ hne
      obtain ⟨y', hy'⟩ := Finalized.exists_delete hf
      rw [← howner, Lifecycle.userStep, Lifecycle.setOwner_owners_self, hy]
      exact ⟨y', hy', (Finalized.delete_eq_some hy').2.1 ▸ hne⟩
    · rw [Lifecycle.userStep, Lifecycle.setOwner_owners_of_ne _ _ _ howner]
      exact ⟨y, hy, hne⟩

lemma Pinned.run (h : Pinned k refs owner s) (ops : List UserEvent) :
    Pinned k refs owner (s.run (ops.map .user)) := by
  induction ops generalizing s with
  | nil => exact h
  | cons e ops ih => exact ih (h.userStep e)

lemma not_kept_of_deleting {x : Rule} (hx : s.rules k = some x)
    (hmem : ruleSetRefFinalizer ∈ x.finalizers) (hdeleting : x.deleting = true)
    (hnames : s.Names x.object) : ¬Kept k s (s.step (.reconcileRule k fun _ => false)) := by
  have hstep : (s.step (.reconcileRule k fun _ => false)).rules k =
      x.removeFinalizers [ruleSetRefFinalizer, finalizer] := by
    have hany : (x.object.any fun _ => false) = false := any_eq_false.mpr (by simp)
    rw [Lifecycle.step, Lifecycle.setRule_rules_self, hx]
    simp [reconcileRule, hdeleting, hany]
  intro hkept
  have hafter := hkept x hx hmem
  rw [hstep] at hafter
  cases hremove : x.removeFinalizers [ruleSetRefFinalizer, finalizer] with
  | none =>
    rw [hremove] at hafter
    exact hafter hnames
  | some x' =>
    obtain ⟨hobject, -, hmem'⟩ := Finalized.removeFinalizers_eq_some hremove
    rw [hremove] at hafter
    have hstill := hafter (hobject ▸ hnames)
    exact ((hmem' _).mp hstill).2 mem_cons_self

lemma pinned_reconcileOwner {x : Rule} {y : Owner} (hx : s.rules k = some x)
    (hmem : ruleSetRefFinalizer ∈ x.finalizers) (hy : s.owners owner = some y)
    (hdeleting : y.deleting = false) :
    Pinned k x.object owner (s.step (.reconcileOwner owner true)) := by
  have hstep : s.step (.reconcileOwner owner true) =
      s.setOwner owner (some (owner.kind.finalizers.foldl Finalized.addFinalizer y)) := by
    simp [Lifecycle.step, hy, reconcileOwner, hdeleting]
  rw [hstep]
  refine ⟨⟨x, hx, rfl, hmem⟩, _, Lifecycle.setOwner_owners_self _ _ _, ?_⟩
  cases owner.kind with
  | ruleSet => exact ne_nil_of_mem (Finalized.mem_addFinalizer_self hdeleting)
  | waf =>
    exact ne_nil_of_mem
      (Finalized.mem_addFinalizer (Finalized.mem_addFinalizer_self hdeleting))

lemma exists_pinned {x : Rule} {y : Owner} (hx : s.rules k = some x)
    (hmem : ruleSetRefFinalizer ∈ x.finalizers) (hy : s.owners owner = some y) :
    ∃ start, start.filterMap LifecycleEvent.user? = [] ∧ Pinned k x.object owner (s.run start) := by
  cases hdeleting : y.deleting with
  | true => exact ⟨[], rfl, ⟨x, hx, rfl, hmem⟩, y, hy, y.held hdeleting⟩
  | false =>
    exact ⟨[.reconcileOwner owner true], rfl, pinned_reconcileOwner hx hmem hy hdeleting⟩

lemma run_snoc (s : Lifecycle) (events : List LifecycleEvent) (e : LifecycleEvent) :
    s.run (events ++ [e]) = (s.run events).step e := by
  rw [Lifecycle.run, foldl_append]
  rfl

lemma filterMap_user?_map (ops : List UserEvent) :
    (ops.map LifecycleEvent.user).filterMap LifecycleEvent.user? = ops := by
  rw [filterMap_map]
  exact filterMap_some

lemma exists_not_kept {x : Rule} (hx : s.rules k = some x)
    (hmem : ruleSetRefFinalizer ∈ x.finalizers) (hnames : s.Names x.object) (past : List UserEvent) :
    ∃ events, events.filterMap LifecycleEvent.user? = past ++ [.deleteRule k] ∧
      ¬Kept k (s.run events) (s.run (events ++ [.reconcileRule k fun _ => false])) := by
  obtain ⟨ref, href, owner, howner, hmatches⟩ := hnames
  obtain ⟨y, hy⟩ := Option.isSome_iff_exists.mp howner
  obtain ⟨start, hstart, hpinned⟩ := exists_pinned hx hmem hy
  have hpast := hpinned.run past
  have hnow := hpast.userStep (.deleteRule k)
  obtain ⟨x', hx', hobject, hmem'⟩ := hnow.rule
  obtain ⟨y', hy', -⟩ := hnow.owner
  have hdeleting : x'.deleting = true := by
    obtain ⟨x₀, hx₀, -⟩ := hpast.rule
    rw [Lifecycle.userStep, Lifecycle.setRule_rules_self, hx₀] at hx'
    exact (Finalized.delete_eq_some hx').2.2
  have hrun : s.run (start ++ (past ++ [UserEvent.deleteRule k]).map LifecycleEvent.user) =
      ((s.run start).run (past.map .user)).userStep (.deleteRule k) := by
    rw [Lifecycle.run, map_append, foldl_append, foldl_append]
    rfl
  refine ⟨start ++ (past ++ [UserEvent.deleteRule k]).map .user, ?_, ?_⟩
  · rw [filterMap_append, hstart, filterMap_user?_map, nil_append]
  · rw [run_snoc, hrun]
    refine not_kept_of_deleting hx' hmem' hdeleting ⟨ref, hobject ▸ href, owner, ?_, hmatches⟩
    rw [hy']
    rfl

end

/-- Whatever the schedule of the reconciles, a rule that carries the finalizer and records an owner
that exists keeps the finalizer, and loses it when its last recorded owner is cleaned up, exactly
when nobody deletes the rule. -/
theorem finalizer_kept_iff_not_deleted {s : Lifecycle} {k : RuleKey} {x : Rule}
    (hx : s.rules k = some x) (hmem : ruleSetRefFinalizer ∈ x.finalizers)
    (hnames : s.Names x.object) (ops : List UserEvent) :
    (∀ events e, (events ++ [e]).filterMap LifecycleEvent.user? <+: ops →
      Kept k (s.run events) (s.run (events ++ [e])) ∧
        Released k e (s.run events) (s.run (events ++ [e]))) ↔
      x.deleting = false ∧ .deleteRule k ∉ ops := by
  constructor
  · intro hall
    constructor
    · by_contra hdeleting
      have hkept := (hall [] (.reconcileRule k fun _ => false) nil_prefix).1
      exact not_kept_of_deleting hx hmem (Bool.of_not_eq_false hdeleting) hnames hkept
    · intro hdelete
      obtain ⟨past, rest, rfl⟩ := append_of_mem hdelete
      obtain ⟨events, hevents, hnot⟩ := exists_not_kept hx hmem hnames past
      refine hnot (hall events _ ?_).1
      rw [filterMap_append, hevents]
      exact ⟨rest, by simp [LifecycleEvent.user?]⟩
  · rintro ⟨hdeleting, hdelete⟩ events e hpast
    have hnot : LifecycleEvent.user (.deleteRule k) ∉ events ++ [e] := by
      intro hmem'
      exact hdelete (hpast.subset (mem_filterMap.mpr ⟨_, hmem', rfl⟩))
    rw [mem_append, not_or, mem_singleton] at hnot
    obtain ⟨x', hx', hx'_deleting⟩ := run_alive hx hdeleting hnot.1
    rw [run_snoc]
    exact ⟨kept_of_alive hx' hx'_deleting (Ne.symm hnot.2), released_step k e _⟩

/-! ## A rule set and its rule -/

def denyRule : RuleKey := ⟨.secRule, "shop", "deny"⟩

def baseRules : OwnerKey := ⟨.ruleSet, "shop", "base"⟩

/-- The SecRule `deny`, locked by the RuleSet `base` and with a back reference to it. -/
def lockedDeny : Rule where
  object := [⟨"RuleSet", "shop", "base"⟩]
  finalizers := [finalizer, ruleSetRefFinalizer]
  held h := by cases h

def shopLifecycle : Lifecycle where
  rules k := if k = denyRule then some lockedDeny else none
  owners owner :=
    if owner = baseRules then some ⟨(), [finalizer], false, fun h => by cases h⟩ else none

lemma shopLifecycle_names : shopLifecycle.Names lockedDeny.object :=
  ⟨_, mem_cons_self, baseRules, rfl, by decide⟩

theorem finalizer_kept_shopLifecycle :
    shopLifecycle.rules denyRule = some lockedDeny ∧
      ∀ events e, (events ++ [e]).filterMap LifecycleEvent.user? <+:
          [.deleteOwner baseRules, .createOwner ⟨.waf, "shop", "edge"⟩] →
        Kept denyRule (shopLifecycle.run events) (shopLifecycle.run (events ++ [e])) ∧
          Released denyRule e (shopLifecycle.run events) (shopLifecycle.run (events ++ [e])) :=
  ⟨rfl, (finalizer_kept_iff_not_deleted rfl (by decide) shopLifecycle_names _).mpr
    ⟨rfl, by decide⟩⟩

/-- A user deletes the rule, its reconciler runs, and the rule is gone while the RuleSet that it
has recorded is still there. -/
theorem shopLifecycle_deletes_deny :
    shopLifecycle.Names lockedDeny.object ∧
      (shopLifecycle.run [.user (.deleteRule denyRule)]).rules denyRule =
        some { lockedDeny with deleting := true, held := fun _ => by decide } ∧
      (shopLifecycle.run [.user (.deleteRule denyRule),
        .reconcileRule denyRule fun _ => false]).rules denyRule = none ∧
      (shopLifecycle.run [.user (.deleteRule denyRule),
        .reconcileRule denyRule fun _ => false]).Names lockedDeny.object :=
  ⟨shopLifecycle_names, rfl, rfl, _, mem_cons_self, baseRules, rfl, by decide⟩

end KubeWaf.References
