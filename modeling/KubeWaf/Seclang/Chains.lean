import KubeWaf.Lib.Chains
import KubeWaf.Seclang.ConvertTheorems

/-!
# Chains of rules

A link with the flow action `chain` goes on with the rule behind it. In the single-rule form the
conversion adds the action to all links but the last and takes it off the last one, unless the rule
has one link only. In the legacy bag it takes the action off every link but the first.
-/

namespace KubeWaf.Seclang

open Lib List

section
variable {α : Type}

/-- A link that the engine reads together with the rule behind it. -/
def carriesChain (lib : Crslang α) (link : RuleLink α) : Bool :=
  link.actions.flowActions.any fun a => lib.getKey a == "chain"

/-- What crslang documents of flow actions: `chain` is the key of the actions of that type. -/
structure Crslang.FlowKeys (lib : Crslang α) : Prop where
  newActionOnly : ∀ t a, lib.newActionOnly (.flow (.known t)) = .ok a →
    (lib.getKey a = "chain" ↔ t = .chain)
  newActionWithParam : ∀ t value a, lib.newActionWithParam (.flow (.known t)) value = .ok a →
    (lib.getKey a = "chain" ↔ t = .chain)

variable {lib : Crslang α} {actions : Option SecRuleActions}

/-! ## The flow actions of a link -/

lemma getKey_flowActionToCSR (hlib : lib.FlowKeys) {x : FlowAction} {a : α}
    (h : flowActionToCSR lib x = .ok a) : lib.getKey a = "chain" ↔ x.type = .known .chain := by
  have hkey : ∀ t, actionToCSR lib (.flow (.known t)) x.value = .ok a →
      (lib.getKey a = "chain" ↔ t = .chain) := by
    intro t ht
    unfold actionToCSR at ht
    split_ifs at ht
    · exact hlib.newActionOnly t a ht
    · exact hlib.newActionWithParam t x.value a ht
  unfold flowActionToCSR flowActionMapper at h
  cases hx : x.type with
  | known t =>
    rw [hx] at h
    rw [hkey t h, ApiEnum.known.injEq]
  | text s =>
    rw [hx] at h
    rw [hkey .flowUnknown h]
    simp

lemma any_chain_of_mapM (hlib : lib.FlowKeys) {source : List FlowAction} {flow : List α}
    (h : source.mapM (flowActionToCSR lib) = .ok flow) :
    (flow.any fun a => lib.getKey a == "chain") = source.any fun f => f.type == .known .chain := by
  rw [mapM_eq_ok] at h
  induction h with
  | nil => rfl
  | @cons x y _ _ hx _ ih =>
    have hkey : (lib.getKey y == "chain") = (x.type == .known .chain) := by
      rw [Bool.eq_iff_iff, beq_iff_eq, beq_iff_eq]
      exact getKey_flowActionToCSR hlib hx
    rw [any_cons, any_cons, ih, hkey]

/-- Whether the actions of a rule, if it has any, chain. -/
def hasChain (actions : Option SecRuleActions) : Bool := (actions.map hasChainInActions).getD false

lemma carriesChain_of_convertActions (hlib : lib.FlowKeys) {link : RuleLink α}
    (h : convertActions lib actions = .ok link.actions) :
    carriesChain lib link = hasChain actions := by
  cases actions with
  | none =>
    rw [carriesChain, ← Except.ok.inj h]
    rfl
  | some a =>
    obtain ⟨_, -, h⟩ := bind_eq_ok.mp h
    obtain ⟨_, -, h⟩ := bind_eq_ok.mp h
    obtain ⟨flow, hflow, h⟩ := bind_eq_ok.mp h
    obtain ⟨_, -, h⟩ := bind_eq_ok.mp h
    rw [carriesChain, ← pure_eq_ok.mp h]
    show (flow.any fun a => lib.getKey a == "chain") = hasChainInActions a
    exact any_chain_of_mapM hlib hflow

@[simp] lemma hasChain_ensureChainAction (actions : Option SecRuleActions) :
    hasChain (some (ensureChainAction actions)) = true := by
  show hasChainInActions (ensureChainAction actions) = true
  rw [ensureChainAction]
  split_ifs with h
  · exact h
  · simp [hasChainInActions]

lemma carriesChain_removeChain (link : RuleLink α) :
    carriesChain lib (removeChainFromFlowActions lib link) = false := by
  simp [carriesChain, removeChainFromFlowActions]

/-! ## The single-rule form -/

section
variable {spec : SecRuleSpec} {m : Match} {i n : ℕ} {link : RuleLink α}

/-- What a link has of its match entry. -/
def TestsMatch (lib : Crslang α) (m : Match) (link : RuleLink α) : Prop :=
  ∃ c, convertCondition lib m.toCondition = .ok c ∧ link.conditions = [c]

lemma matchToRuleWithCondition_eq_ok {metadata : Option SecRuleMetadata} {needChain : Bool}
    (h : matchToRuleWithCondition lib metadata m actions needChain = .ok link) :
    link.metadata = metadata.getD {} ∧ TestsMatch lib m link ∧
      convertActions lib (if needChain then some (ensureChainAction actions) else actions)
        = .ok link.actions := by
  obtain ⟨hmetadata, hconditions, hactions⟩ := secLangSecRuleToRuleWithCondition_eq_ok.mp h
  refine ⟨hmetadata, ?_, hactions⟩
  rw [mapM_eq_ok, forall₂_cons_left_iff] at hconditions
  obtain ⟨c, rest, hc, hrest, hlink⟩ := hconditions
  rw [forall₂_nil_left_iff] at hrest
  rw [hrest] at hlink
  exact ⟨c, hc, hlink⟩

/-- What the loop over the match entries makes of one of them. -/
structure ConvertedLink (lib : Crslang α) (spec : SecRuleSpec) (m : Match) (i n : ℕ)
    (link : RuleLink α) : Prop where
  metadata : link.metadata = if i = 0 then spec.metadata.getD {} else {}
  tests : TestsMatch lib m link
  chain : carriesChain lib link =
    if i + 1 = n then i = 0 && hasChain (linkActions spec m i n) else true

lemma convertedLink (hlib : lib.FlowKeys) (hi : i < n)
    (h : convertLink lib spec m i n = .ok link) : ConvertedLink lib spec m i n link := by
  obtain ⟨raw, hraw, h⟩ := bind_eq_ok.mp h
  obtain ⟨hmetadata, htests, hactions⟩ := matchToRuleWithCondition_eq_ok hraw
  have hchain := carriesChain_of_convertActions hlib hactions
  have hmeta : raw.metadata = if i = 0 then spec.metadata.getD {} else {} := by
    rw [hmetadata]
    split_ifs <;> rfl
  by_cases hfirst : i = 0
  · rw [if_pos hfirst] at h
    cases pure_eq_ok.mp h
    refine ⟨hmeta, htests, ?_⟩
    rw [hchain]
    by_cases hlast : i + 1 = n
    · rw [if_pos hlast, if_neg (by simp [hlast])]
      simp [hfirst]
    · rw [if_neg hlast, if_pos (by rw [decide_eq_true_eq]; omega)]
      exact hasChain_ensureChainAction _
  · rw [if_neg hfirst] at h
    by_cases hlast : i + 1 = n
    · rw [if_pos hlast] at h
      cases pure_eq_ok.mp h
      refine ⟨hmeta, htests, ?_⟩
      rw [if_pos hlast, decide_eq_false hfirst, Bool.false_and]
      exact carriesChain_removeChain raw
    · rw [if_neg hlast] at h
      cases pure_eq_ok.mp h
      refine ⟨hmeta, htests, ?_⟩
      rw [if_neg hlast]
      refine Eq.trans ?_ (hchain.trans ?_)
      · rfl
      · rw [if_pos (by rw [decide_eq_true_eq]; omega)]
        exact hasChain_ensureChainAction _

lemma convertLinks_eq_ok (hlib : lib.FlowKeys) {ms : List Match} {links : List (RuleLink α)}
    (hn : i + ms.length = n) (h : convertLinks lib spec n i ms = .ok links) :
    List.Forall₂ (TestsMatch lib) ms links ∧
      (0 < i → ∀ link ∈ links, link.metadata = {}) ∧
      (ms ≠ [] → 1 < n → IsChain (carriesChain lib) links) := by
  induction ms generalizing i links with
  | nil =>
    cases h
    exact ⟨.nil, by simp, by simp⟩
  | cons m ms ih =>
    rw [length_cons] at hn
    obtain ⟨link, hlink, h⟩ := bind_eq_ok.mp h
    obtain ⟨rest, hrest, h⟩ := bind_eq_ok.mp h
    cases pure_eq_ok.mp h
    have hlinkOk := convertedLink hlib (by omega) hlink
    obtain ⟨htests, hmetadata, hchain⟩ := ih (by omega) hrest
    refine ⟨.cons hlinkOk.tests htests, ?_, ?_⟩
    · intro hi
      rw [forall_mem_cons]
      refine ⟨?_, hmetadata (by omega)⟩
      rw [hlinkOk.metadata, if_neg (by omega)]
    · intro _ hlong
      cases ms with
      | nil =>
        cases hrest
        have hone : i + 1 = n := hn
        have hlast := hlinkOk.chain
        rw [if_pos hone, decide_eq_false (by omega), Bool.false_and] at hlast
        exact hlast
      | cons m' ms =>
        have hmore := hlinkOk.chain
        rw [if_neg (by rw [length_cons] at hn; omega)] at hmore
        have hrestChain := hchain (by simp) hlong
        obtain ⟨link', rest', rfl⟩ := exists_cons_of_ne_nil hrestChain.ne_nil
        exact ⟨hmore, hrestChain⟩

end

lemma BuiltFrom.chain_spec (hlib : lib.FlowKeys) {spec : SecRuleSpec} {ms : List Match}
    {r : RuleWithCondition α} (h : BuiltFrom lib spec ms r)
    (halways : ∀ m, ms = [m] → m.alwaysMatch = false) :
    List.Forall₂ (TestsMatch lib) ms r.links ∧
      (r.head.metadata = spec.metadata.getD {} ∧ ∀ link ∈ r.chain, link.metadata = {}) ∧
      (IsChain (carriesChain lib) r.links ↔
        ∀ m, ms = [m] → hasChain (m.actions.or spec.actions) = false) := by
  have hhead := h.metadata_head
  cases h with
  | alwaysMatch hm => exact absurd hm (by rw [halways _ rfl]; decide)
  | @chain m ms head chain _ hfirst hchain =>
    have hlinks : convertLinks lib spec (m :: ms).length 0 (m :: ms) = .ok (head :: chain) :=
      bind_eq_ok.mpr ⟨head, hfirst, bind_eq_ok.mpr ⟨chain, hchain, rfl⟩⟩
    obtain ⟨htests, _, hlong⟩ := convertLinks_eq_ok hlib (Nat.zero_add _) hlinks
    obtain ⟨_, hmetadata, _⟩ := convertLinks_eq_ok hlib (Nat.add_comm 1 _) hchain
    refine ⟨htests, ⟨hhead, hmetadata (by decide)⟩, ?_⟩
    cases ms with
    | nil =>
      cases hchain
      have hone := (convertedLink hlib (by simp) hfirst).chain
      have hactions : linkActions spec m 0 1 = m.actions.or spec.actions := by
        unfold linkActions
        cases m.actions <;> simp
      rw [length_singleton, if_pos rfl, hactions, decide_eq_true rfl, Bool.true_and] at hone
      show carriesChain lib head = false ↔ _
      rw [hone]
      constructor
      · rintro h m' hm'
        rw [← singleton_inj.mp hm']
        exact h
      · intro h
        exact h m rfl
    | cons m' ms =>
      refine iff_of_true (hlong (by simp) (by simp)) ?_
      intro m'' hm''
      cases hm''

/-- The directives of a rule in the single-rule form are one chain with a link for each match entry,
and the marker behind it. The engine reads the chain on its own, whatever rules stand behind it. -/
def IsRuleChain (lib : Crslang α) (spec : SecRuleSpec) (out : List (SeclangDirective α)) : Prop :=
  ∃ r : RuleWithCondition α, out = .rule r :: markerDirectives spec.markerAfter ∧
    List.Forall₂ (TestsMatch lib) spec.matchLinks r.links ∧
    IsChain (carriesChain lib) r.links ∧
    (r.head.metadata = spec.metadata.getD {} ∧ ∀ link ∈ r.chain, link.metadata = {}) ∧
    ∀ next, chains (carriesChain lib) (r.links ++ next) = r.links :: chains (carriesChain lib) next

/-- A rule with match entries is converted into one chain exactly when it has several, or one whose
actions do not chain. -/
theorem convertSecRule_isRuleChain_iff {source : SecRule} {out : List (SeclangDirective α)}
    (hlib : lib.FlowKeys) (hms : source.spec.matchLinks ≠ [])
    (halways : ∀ m, source.spec.matchLinks = [m] → m.alwaysMatch = false)
    (hout : convertSecRule lib source = .ok out) :
    IsRuleChain lib source.spec out ↔
      ∀ m, source.spec.matchLinks = [m] → hasChain (m.actions.or source.spec.actions) = false := by
  have hform : source.spec.isSingleRuleForm = true := by
    simp [SecRuleSpec.isSingleRuleForm, hms]
  rw [convertSecRule, if_pos hform] at hout
  obtain ⟨r, rfl, hbuilt⟩ := convertSingleRuleForm_builtFrom hout
  have heffective : effectiveMatches source.spec = source.spec.matchLinks := by
    simp [effectiveMatches, hms]
  rw [heffective] at hbuilt
  obtain ⟨htests, hmetadata, hchain⟩ := hbuilt.chain_spec hlib halways
  have hr : ∀ r' : RuleWithCondition α, SeclangDirective.rule r :: markerDirectives
      source.spec.markerAfter = .rule r' :: markerDirectives source.spec.markerAfter → r = r' := by
    intro r' heq
    simpa using heq
  rw [← hchain]
  constructor
  · rintro ⟨r', heq, _, hischain, _⟩
    rw [hr r' heq]
    exact hischain
  · intro hischain
    exact ⟨r, rfl, htests, hischain, hmetadata, fun next => chains_append hischain⟩

end

/-- A rule that denies on one variable, with flow actions of its own. -/
def flowRule (n : ℕ) (flow : List FlowAction) : SecRule where
  spec :=
    { metadata := some { id := 100001, phase := "2" }
      matchLinks := List.replicate n
        { vars := [{ name := .known .REQUEST_URI, excluded := false }]
          operator := { name := .known .rx, value := "attack" } }
      actions := some { flow } }

lemma plainCrslang_flowKeys : plainCrslang.FlowKeys where
  newActionOnly t a h := by
    cases Except.ok.inj h
    cases t <;> decide
  newActionWithParam t value a h := by
    cases Except.ok.inj h
    show t.text = "chain" ↔ t = .chain
    cases t <;> decide

/-- Three match entries, with a `chain` that the user has written as well. -/
theorem convertSecRule_isRuleChain_three :
    plainCrslang.FlowKeys ∧
      ∃ out, convertSecRule plainCrslang (flowRule 3 [{ type := .known .chain, value := "" }])
          = .ok out ∧
        IsRuleChain plainCrslang (flowRule 3 [{ type := .known .chain, value := "" }]).spec out := by
  have hthree : ∀ m, (flowRule 3 [{ type := .known .chain, value := "" }]).spec.matchLinks ≠ [m] :=
    fun m hm => absurd (congrArg List.length hm) (by simp [flowRule])
  refine ⟨plainCrslang_flowKeys, _, rfl, ?_⟩
  exact (convertSecRule_isRuleChain_iff plainCrslang_flowKeys (by decide)
    (fun m hm => absurd hm (hthree m)) rfl).mpr fun m hm => absurd hm (hthree m)

/-- A single match entry with `chain` is read together with the rule behind it. -/
theorem convertSecRule_single_absorbs :
    ∃ r next : RuleWithCondition PlainAction,
      convertSecRule plainCrslang (flowRule 1 [{ type := .known .chain, value := "" }])
        = .ok [.rule r] ∧
      convertSecRule plainCrslang (flowRule 1 []) = .ok [.rule next] ∧
      chains (carriesChain plainCrslang) (r.links ++ next.links) = [r.links ++ next.links] :=
  ⟨_, _, rfl, rfl, by decide⟩

end KubeWaf.Seclang
