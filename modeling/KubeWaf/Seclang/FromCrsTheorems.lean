import KubeWaf.Lib.ExceptLemmas
import KubeWaf.Seclang.FromCrs

/-!
# What `ConvertCrsRuleToSingleForm` produces
-/

namespace KubeWaf.Seclang

open Lib List

section
variable {α : Type} {lib : Crslang α} {links : List (RuleLink α)} {marker : String}
  {r : RuleWithCondition α} {legacy : SecLangSecRule} {source : RuleLink α} (spec : SecRuleSpec)

/-! ## One link -/

/-- The metadata that `ConvertCrsRule` copies. -/
def crsMetadata (source : RuleLink α) : SecRuleMetadata :=
  { source.metadata with comment := sanitizeRuleComment source.metadata.comment }

@[simp] lemma crsMetadata_id (source : RuleLink α) :
    (crsMetadata source).id = source.metadata.id := by
  simp [crsMetadata]

lemma convertCrsRule_eq_ok :
    convertCrsRule lib source marker = .ok legacy ↔
      ∃ conditions, source.conditions.mapM (convertCrsCondition lib) = .ok conditions ∧
        legacy = ⟨some (crsMetadata source), conditions,
          some (secActionToAPI lib source.actions), marker⟩ := by
  unfold convertCrsRule
  rw [bind_eq_ok]
  simp [pure_eq_ok, crsMetadata, eq_comm (b := legacy)]

lemma convertCrsCondition_eq_ok {c : CrsCondition} {cond : Condition}
    (h : convertCrsCondition lib c = .ok cond) :
    cond.alwaysMatch = c.alwaysMatch ∧ cond.script = c.script ∧
      (cond.vars = [] ↔ c.vars = []) ∧ (cond.collections = [] ↔ c.collections = []) := by
  obtain ⟨ts, -, h⟩ := bind_eq_ok.mp h
  rw [← pure_eq_ok.mp h]
  exact ⟨rfl, rfl, map_eq_nil_iff, map_eq_nil_iff⟩

lemma flowActionToAPI_type_eq_chain {a : α} :
    (flowActionToAPI lib a).type = .known .chain ↔ lib.getKey a = "chain" := by
  have htype : (flowActionToAPI lib a).type =
      ApiEnum.ofText FlowActionType.text FlowActionType.all (lib.getKey a) := by
    unfold flowActionToAPI
    simp only
    split <;> rfl
  rw [htype, ApiEnum.ofText]
  constructor
  · intro h
    split at h
    · next t ht =>
      cases h
      have hkey := find?_some ht
      rw [beq_iff_eq] at hkey
      exact hkey.symm
    · cases h
  · intro h
    rw [h]
    rfl

lemma hasChainInFlow_convertCrsRule (h : convertCrsRule lib source marker = .ok legacy) :
    hasChainInFlow legacy = false ↔ ∀ a ∈ source.actions.flowActions, lib.getKey a ≠ "chain" := by
  obtain ⟨conditions, -, rfl⟩ := convertCrsRule_eq_ok.mp h
  simp [hasChainInFlow, hasChainInActions, secActionToAPI, flowActionToAPI_type_eq_chain]

lemma withoutChain_secActionToAPI (actions : SeclangActions α) :
    (withoutChain (secActionToAPI lib actions)).flow.length = actions.flowActions.length ↔
      ∀ a ∈ actions.flowActions, lib.getKey a ≠ "chain" := by
  rw [withoutChain, filterOutChain, secActionToAPI, ← length_map (flowActionToAPI lib),
    length_filter_eq_length_iff]
  simp [flowActionToAPI_type_eq_chain]

lemma withoutChain_eq_self {actions : SeclangActions α}
    (h : ∀ a ∈ actions.flowActions, lib.getKey a ≠ "chain") :
    withoutChain (secActionToAPI lib actions) = secActionToAPI lib actions := by
  have hflow : filterOutChain (secActionToAPI lib actions).flow =
      (secActionToAPI lib actions).flow := by
    rw [filterOutChain, filter_eq_self, secActionToAPI]
    simpa only [forall_mem_map, bne_iff_ne, ne_eq, flowActionToAPI_type_eq_chain] using h
  rw [withoutChain, hflow]

/-! ## The spec -/

lemma orderFromID_eq : orderFromID spec = { spec with order := (orderFromID spec).order } := by
  unfold orderFromID
  split
  · rfl
  · split_ifs <;> rfl

@[simp] lemma orderFromID_metadata : (orderFromID spec).metadata = spec.metadata := by
  rw [orderFromID_eq]

@[simp] lemma orderFromID_matchLinks : (orderFromID spec).matchLinks = spec.matchLinks := by
  rw [orderFromID_eq]

@[simp] lemma orderFromID_actions : (orderFromID spec).actions = spec.actions := by
  rw [orderFromID_eq]

@[simp] lemma orderFromID_markerAfter : (orderFromID spec).markerAfter = spec.markerAfter := by
  rw [orderFromID_eq]

@[simp] lemma orderFromID_orderFromID : orderFromID (orderFromID spec) = orderFromID spec := by
  cases hm : spec.metadata with
  | none => simp [orderFromID, hm]
  | some m =>
    by_cases hid : 0 < m.id
    · simp [orderFromID, hm, hid]
    · simp [orderFromID, hm, hid]

/-- The match entry of the first link: its first condition, or nothing. -/
def firstMatch (conditions : List Condition) : Match :=
  (conditions.head?.map Condition.toMatch).getD {}

/-- A match entry tests the first condition of a link. -/
def TestsFirst (lib : Crslang α) (link : RuleLink α) (m : Match) : Prop :=
  ∃ conditions, link.conditions.mapM (convertCrsCondition lib) = .ok conditions ∧
    m.toCondition = (firstMatch conditions).toCondition

lemma walkChain_rest {spec spec' : SecRuleSpec} (hne : spec.matchLinks ≠ [])
    (h : walkChain lib spec false links = .ok spec') :
    ∃ ms, spec' = { spec with matchLinks := spec.matchLinks ++ ms } ∧
      List.Forall₂ (TestsFirst lib) links ms := by
  induction links generalizing spec with
  | nil =>
    cases h
    exact ⟨[], by simp, .nil⟩
  | cons cur links ih =>
    obtain ⟨legacy, hlegacy, h⟩ := bind_eq_ok.mp h
    obtain ⟨conditions, hconditions, rfl⟩ := convertCrsRule_eq_ok.mp hlegacy
    simp only [Bool.false_eq_true, if_false, isEmpty_eq_false_iff.mpr hne, Bool.and_false]
      at h
    obtain ⟨ms, hms, htests⟩ := ih (by simp) h
    refine ⟨{ firstMatch conditions with actions := some (withoutChain (secActionToAPI lib
      cur.actions)) } :: ms, ?_, .cons ⟨conditions, hconditions, rfl⟩ htests⟩
    simpa [firstMatch] using hms

/-- The match entries a rule leads to: its conditions if it has several and no chain, otherwise
one entry for each link. -/
def MatchesOf (r : RuleWithCondition α) (conditions : List Condition) (ms : List Match) : Prop :=
  (r.chain = [] ∧ 1 < conditions.length ∧ ms = conditions.map Condition.toMatch) ∨
  (¬ (r.chain = [] ∧ 1 < conditions.length) ∧
    ∃ rest, ms = firstMatch conditions :: rest ∧ rest.length = r.chain.length)

lemma convertCrsRuleToSingleForm_eq_ok {spec : SecRuleSpec}
    (h : convertCrsRuleToSingleForm lib r marker = .ok spec) :
    ∃ conditions ms, r.head.conditions.mapM (convertCrsCondition lib) = .ok conditions ∧
      MatchesOf r conditions ms ∧
      spec = orderFromID {
        markerAfter := marker
        metadata := some (crsMetadata r.head)
        matchLinks := ms
        actions := some (withoutChain (secActionToAPI lib r.head.actions)) } := by
  obtain ⟨spec₀, hwalk, h⟩ := bind_eq_ok.mp h
  obtain ⟨legacy, hlegacy, hwalk⟩ := bind_eq_ok.mp hwalk
  obtain ⟨conditions, hconditions, rfl⟩ := convertCrsRule_eq_ok.mp hlegacy
  rw [← pure_eq_ok.mp h]
  simp only [if_true, isEmpty_nil, Bool.and_true, nil_append, Option.map_some] at hwalk
  by_cases hspread : r.chain = [] ∧ 1 < conditions.length
  · rw [if_pos (by simpa using hspread)] at hwalk
    rw [← pure_eq_ok.mp hwalk]
    exact ⟨conditions, _, hconditions, .inl ⟨hspread.1, hspread.2, rfl⟩, rfl⟩
  · rw [if_neg (by simpa using hspread)] at hwalk
    obtain ⟨rest, rfl, htests⟩ := walkChain_rest (by simp) hwalk
    exact ⟨conditions, _, hconditions, .inr ⟨hspread, rest, rfl, htests.length_eq.symm⟩, rfl⟩

lemma convertCrsRuleToSingleForm_singleton {c : CrsCondition} (hchain : r.chain = [])
    (hconditions : r.head.conditions = [c]) (marker : String) :
    convertCrsRuleToSingleForm lib r marker =
      (convertCrsCondition lib c).map fun cond => orderFromID {
        markerAfter := marker
        metadata := some (crsMetadata r.head)
        matchLinks := [cond.toMatch]
        actions := some (withoutChain (secActionToAPI lib r.head.actions)) } := by
  unfold convertCrsRuleToSingleForm RuleWithCondition.links walkChain convertCrsRule
  rw [hchain, hconditions, mapM_cons, mapM_nil]
  cases convertCrsCondition lib c with
  | error e => rfl
  | ok cond => rfl

/-! ## The conditions -/

/-- The match entries test the conditions of all links, in the order of the chain. -/
def KeepsConditions (lib : Crslang α) (r : RuleWithCondition α) (spec : SecRuleSpec) : Prop :=
  (r.links.flatMap RuleLink.conditions).mapM (convertCrsCondition lib)
    = .ok (spec.matchLinks.map Match.toCondition)

lemma length_eq_one_of_flatMap (hne : ∀ link ∈ links, link.conditions ≠ [])
    (h : (links.flatMap RuleLink.conditions).length ≤ links.length) :
    ∀ link ∈ links, link.conditions.length = 1 := by
  have hle : ∀ links : List (RuleLink α), (∀ link ∈ links, link.conditions ≠ []) →
      links.length ≤ (links.flatMap RuleLink.conditions).length := by
    intro links hne
    induction links with
    | nil => exact Nat.le_refl 0
    | cons link links ih =>
      have hpos := length_pos_iff.mpr (hne link mem_cons_self)
      have hrest := ih fun l hl => hne l (mem_cons_of_mem _ hl)
      rw [flatMap_cons, length_append, length_cons]
      omega
  induction links with
  | nil => simp
  | cons link links ih =>
    have hpos := length_pos_iff.mpr (hne link mem_cons_self)
    have hrest := hle links fun l hl => hne l (mem_cons_of_mem _ hl)
    rw [flatMap_cons, length_append, length_cons] at h
    rw [forall_mem_cons]
    exact ⟨by omega, ih (fun l hl => hne l (mem_cons_of_mem _ hl)) (by omega)⟩

lemma mapM_flatMap_iff {ms : List Match} (hne : ∀ link ∈ links, link.conditions ≠ [])
    (h : List.Forall₂ (TestsFirst lib) links ms) :
    (links.flatMap RuleLink.conditions).mapM (convertCrsCondition lib)
        = .ok (ms.map Match.toCondition) ↔
      ∀ link ∈ links, link.conditions.length = 1 := by
  constructor
  · intro hall
    have hlength := (mapM_eq_ok.mp hall).length_eq
    rw [length_map] at hlength
    exact length_eq_one_of_flatMap hne (by rw [hlength, h.length_eq])
  · intro hone
    rw [mapM_eq_ok]
    clear hne
    induction h with
    | nil => exact .nil
    | @cons link m links ms hfirst _ ih =>
      rw [forall_mem_cons] at hone
      obtain ⟨c, hc⟩ := length_eq_one_iff.mp hone.1
      obtain ⟨conditions, hconditions, hm⟩ := hfirst
      rw [hc, mapM_eq_ok] at hconditions
      obtain ⟨cond, hcond, rfl⟩ : ∃ cond, convertCrsCondition lib c = .ok cond ∧ conditions = [cond] := by
        cases hconditions with
        | cons hcond hnil =>
          cases hnil
          exact ⟨_, hcond, rfl⟩
      rw [flatMap_cons, hc, singleton_append, map_cons, hm]
      exact .cons hcond (ih hone.2)

/-- No condition is lost exactly when the rule has no chain, or each of its links has one
condition. -/
theorem convertCrsRuleToSingleForm_keepsConditions_iff {r : RuleWithCondition α} {marker : String}
    {spec : SecRuleSpec} (hne : ∀ link ∈ r.links, link.conditions ≠ [])
    (h : convertCrsRuleToSingleForm lib r marker = .ok spec) :
    KeepsConditions lib r spec ↔
      r.chain = [] ∨ ∀ link ∈ r.links, link.conditions.length = 1 := by
  obtain ⟨spec₀, hwalk, h⟩ := bind_eq_ok.mp h
  obtain ⟨legacy, hlegacy, hwalk⟩ := bind_eq_ok.mp hwalk
  obtain ⟨conditions, hconditions, rfl⟩ := convertCrsRule_eq_ok.mp hlegacy
  have hlength : r.head.conditions.length = conditions.length :=
    (mapM_eq_ok.mp hconditions).length_eq
  rw [KeepsConditions, ← pure_eq_ok.mp h, orderFromID_matchLinks]
  simp only [if_true, isEmpty_nil, Bool.and_true, nil_append, Option.map_some] at hwalk
  by_cases hspread : r.chain = [] ∧ 1 < conditions.length
  · rw [if_pos (by simpa using hspread)] at hwalk
    rw [← pure_eq_ok.mp hwalk, RuleWithCondition.links, hspread.1, flatMap_singleton]
    refine iff_of_true ?_ (.inl rfl)
    rw [hconditions, map_map]
    exact congrArg Except.ok (map_id conditions).symm
  · rw [if_neg (by simpa using hspread)] at hwalk
    obtain ⟨rest, rfl, htests⟩ := walkChain_rest (by simp) hwalk
    have hall : List.Forall₂ (TestsFirst lib) r.links (firstMatch conditions :: rest) :=
      .cons ⟨conditions, hconditions, rfl⟩ htests
    refine (mapM_flatMap_iff hne hall).trans ⟨.inr, ?_⟩
    rintro (hchain | hone)
    · rw [RuleWithCondition.links, hchain, forall_mem_singleton]
      have hpos := length_pos_iff.mpr (hne r.head mem_cons_self)
      have hle : ¬1 < conditions.length := fun hlt => hspread ⟨hchain, hlt⟩
      omega
    · exact hone

end

/-- A crslang link that tests the request for each of the values. -/
def crsLink (values : List String) : RuleLink PlainAction where
  conditions := values.map fun value =>
    { vars := [{ name := .known .REQUEST_URI, excluded := false }]
      operator := { name := .known .rx, value } }

theorem convertCrsRuleToSingleForm_keepsConditions_chain :
    (∀ link ∈ (⟨crsLink ["a"], [crsLink ["b"], crsLink ["c"]]⟩ : RuleWithCondition PlainAction).links,
      link.conditions ≠ []) ∧
    ∃ spec, convertCrsRuleToSingleForm plainCrslang
        ⟨crsLink ["a"], [crsLink ["b"], crsLink ["c"]]⟩ "" = .ok spec ∧
      KeepsConditions plainCrslang ⟨crsLink ["a"], [crsLink ["b"], crsLink ["c"]]⟩ spec := by
  have hne : ∀ link ∈ (⟨crsLink ["a"], [crsLink ["b"], crsLink ["c"]]⟩ :
      RuleWithCondition PlainAction).links, link.conditions ≠ [] := by decide
  refine ⟨hne, _, rfl, ?_⟩
  exact (convertCrsRuleToSingleForm_keepsConditions_iff hne rfl).mpr (.inr (by decide))

/-- The second condition of the head of a chain is lost. -/
theorem convertCrsRuleToSingleForm_loses_condition :
    ∃ spec, convertCrsRuleToSingleForm plainCrslang ⟨crsLink ["a", "b"], [crsLink ["c"]]⟩ ""
        = .ok spec ∧
      spec.matchLinks.map (·.operator.value) = ["a", "c"] :=
  ⟨_, rfl, by decide⟩

end KubeWaf.Seclang
