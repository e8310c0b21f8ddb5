import KubeWaf.Lib.ExceptLemmas
import KubeWaf.Seclang.Convert

/-!
# The shape of a converted rule

What `convertSingleRuleForm` emits: one rule with a link for each match entry, and at most a
marker.
-/

namespace KubeWaf.Seclang

open Lib List

section
variable {α : Type} {lib : Crslang α} {m : Match}

/-- The match entries of a spec; metadata without match is an always-match rule. -/
def effectiveMatches (spec : SecRuleSpec) : List Match :=
  if spec.matchLinks.isEmpty then [{ alwaysMatch := true }] else spec.matchLinks

lemma effectiveMatches_ne_nil (spec : SecRuleSpec) : effectiveMatches spec ≠ [] := by
  unfold effectiveMatches
  cases spec.matchLinks <;> simp

lemma pureAlwaysMatch_eq_some {ms : List Match} :
    pureAlwaysMatch ms = some m ↔ ms = [m] ∧ m.alwaysMatch = true := by
  unfold pureAlwaysMatch
  split
  · rename_i m'
    by_cases hm : m'.alwaysMatch = true
    · rw [if_pos hm, Option.some_inj, singleton_inj]
      constructor
      · rintro rfl
        exact ⟨rfl, hm⟩
      · exact And.left
    · rw [if_neg hm, singleton_inj]
      constructor
      · intro h
        cases h
      · rintro ⟨rfl, h⟩
        exact absurd h hm
  · rename_i hne
    constructor
    · intro h
      cases h
    · rintro ⟨rfl, -⟩
      exact absurd rfl (hne m)

/-- The two ways a rule in the single-rule form is built from its match entries. -/
inductive BuiltFrom (lib : Crslang α) (spec : SecRuleSpec) : List Match → RuleWithCondition α → Prop
  | alwaysMatch {m : Match} {link : RuleLink α} (hm : m.alwaysMatch = true)
      (hlink : alwaysMatchToRuleWithCondition lib spec.metadata m
        (if m.actions.isSome then m.actions else spec.actions) = .ok link) :
      BuiltFrom lib spec [m] { head := link }
  | chain {m : Match} {ms : List Match} {head : RuleLink α} {chain : List (RuleLink α)}
      (hm : pureAlwaysMatch (m :: ms) = none)
      (hhead : convertLink lib spec m 0 (m :: ms).length = .ok head)
      (hchain : convertLinks lib spec (m :: ms).length 1 ms = .ok chain) :
      BuiltFrom lib spec (m :: ms) { head, chain }

lemma convertSingleRuleForm_builtFrom {source : SecRule} {out : List (SeclangDirective α)}
    (h : convertSingleRuleForm lib source = .ok out) :
    ∃ r, out = .rule r :: markerDirectives source.spec.markerAfter ∧
      BuiltFrom lib source.spec (effectiveMatches source.spec) r := by
  unfold convertSingleRuleForm at h
  have heffective : (if source.spec.matchLinks.isEmpty then [{ alwaysMatch := true }]
      else source.spec.matchLinks) = effectiveMatches source.spec := rfl
  simp only [heffective] at h
  obtain ⟨m, ms, hms⟩ := exists_cons_of_ne_nil (effectiveMatches_ne_nil source.spec)
  rw [hms] at h ⊢
  cases hp : pureAlwaysMatch (m :: ms) with
  | some m' =>
    obtain ⟨heq, hm'⟩ := pureAlwaysMatch_eq_some.mp hp
    cases heq
    simp only [hp] at h
    obtain ⟨link, hlink, h⟩ := bind_eq_ok.mp h
    exact ⟨{ head := link }, (pure_eq_ok.mp h).symm, .alwaysMatch hm' hlink⟩
  | none =>
    simp only [hp] at h
    obtain ⟨links, hlinks, h⟩ := bind_eq_ok.mp h
    obtain ⟨head, hhead, hlinks⟩ := bind_eq_ok.mp hlinks
    obtain ⟨chain, hchain, hlinks⟩ := bind_eq_ok.mp hlinks
    cases pure_eq_ok.mp hlinks
    exact ⟨{ head, chain }, (pure_eq_ok.mp h).symm, .chain hp hhead hchain⟩

lemma convertSecRule_of_metadata {sr : SecRule} (h : sr.spec.metadata.isSome = true) :
    convertSecRule lib sr = convertSingleRuleForm lib { spec := sr.spec } := by
  rw [convertSecRule, SecRuleSpec.isSingleRuleForm, h, Bool.true_or, Bool.true_or, if_pos rfl]
  rfl

lemma convertLinks_length {spec : SecRuleSpec} {n i : ℕ} {ms : List Match}
    {links : List (RuleLink α)} (h : convertLinks lib spec n i ms = .ok links) :
    links.length = ms.length := by
  induction ms generalizing i links with
  | nil =>
    cases h
    rfl
  | cons m ms ih =>
    obtain ⟨link, -, h⟩ := bind_eq_ok.mp h
    obtain ⟨rest, hrest, h⟩ := bind_eq_ok.mp h
    rw [← pure_eq_ok.mp h, length_cons, length_cons, ih hrest]

lemma secLangSecRuleToRuleWithCondition_eq_ok {secRule : SecLangSecRule} {link : RuleLink α} :
    secLangSecRuleToRuleWithCondition lib secRule = .ok link ↔
      link.metadata = secRule.metadata.getD {} ∧
      secRule.conditions.mapM (convertCondition lib) = .ok link.conditions ∧
      convertActions lib secRule.actions = .ok link.actions := by
  unfold secLangSecRuleToRuleWithCondition
  simp only [bind_eq_ok, pure_eq_ok]
  constructor
  · rintro ⟨conditions, hconditions, actions, hactions, rfl⟩
    exact ⟨rfl, hconditions, hactions⟩
  · rintro ⟨hmetadata, hconditions, hactions⟩
    exact ⟨_, hconditions, _, hactions, by rw [← hmetadata]⟩

lemma convertLink_zero_eq_ok {spec : SecRuleSpec} {n : ℕ} {link : RuleLink α} :
    convertLink lib spec m 0 n = .ok link ↔
      matchToRuleWithCondition lib spec.metadata m (linkActions spec m 0 n) (0 + 1 ≠ n ∧ 1 < n)
        = .ok link := by
  unfold convertLink
  rw [bind_eq_ok]
  simp only [if_true]
  constructor
  · rintro ⟨link', hlink', h⟩
    rw [← pure_eq_ok.mp h]
    exact hlink'
  · intro h
    exact ⟨link, h, rfl⟩

section
variable {spec : SecRuleSpec} {ms : List Match} {r : RuleWithCondition α}

lemma BuiltFrom.length_links (h : BuiltFrom lib spec ms r) : r.links.length = ms.length := by
  cases h with
  | alwaysMatch hm hlink => rfl
  | chain hm hhead hchain =>
    rw [RuleWithCondition.links, length_cons, length_cons, convertLinks_length hchain]

lemma BuiltFrom.metadata_head (h : BuiltFrom lib spec ms r) :
    r.head.metadata = spec.metadata.getD {} := by
  cases h with
  | alwaysMatch hm hlink =>
    obtain ⟨ts, -, hlink⟩ := bind_eq_ok.mp hlink
    obtain ⟨actions, -, hlink⟩ := bind_eq_ok.mp hlink
    rw [← pure_eq_ok.mp hlink]
  | chain hm hhead hchain =>
    rw [convertLink_zero_eq_ok] at hhead
    exact (secLangSecRuleToRuleWithCondition_eq_ok.mp hhead).1

lemma BuiltFrom.length_conditions (h : BuiltFrom lib spec ms r) :
    r.head.conditions.length = 1 := by
  cases h with
  | alwaysMatch hm hlink =>
    obtain ⟨ts, -, hlink⟩ := bind_eq_ok.mp hlink
    obtain ⟨actions, -, hlink⟩ := bind_eq_ok.mp hlink
    rw [← pure_eq_ok.mp hlink]
    rfl
  | chain hm hhead hchain =>
    rw [convertLink_zero_eq_ok] at hhead
    have hconditions := (secLangSecRuleToRuleWithCondition_eq_ok.mp hhead).2.1
    exact (mapM_eq_ok.mp hconditions).length_eq.symm

end

lemma BuiltFrom.singleton {spec : SecRuleSpec} {r : RuleWithCondition α}
    (h : BuiltFrom lib spec [m] r) (hm : m.actions = none) :
    convertActions lib spec.actions = .ok r.head.actions ∧
      (m.alwaysMatch = true → ∀ c ∈ r.head.conditions,
        c.vars = [] ∧ c.collections = [] ∧ c.script = "") := by
  cases h with
  | alwaysMatch halways hlink =>
    obtain ⟨ts, -, hlink⟩ := bind_eq_ok.mp hlink
    obtain ⟨actions, hactions, hlink⟩ := bind_eq_ok.mp hlink
    rw [← pure_eq_ok.mp hlink]
    rw [hm] at hactions
    refine ⟨hactions, fun _ c hc => ?_⟩
    rw [mem_singleton.mp hc]
    exact ⟨rfl, rfl, rfl⟩
  | chain halways hhead hchain =>
    rw [convertLink_zero_eq_ok] at hhead
    have hactions := (secLangSecRuleToRuleWithCondition_eq_ok.mp hhead).2.2
    have hneed : decide (0 + 1 ≠ [m].length ∧ 1 < [m].length) = false := rfl
    simp only [linkActions, hm, hneed, Bool.false_eq_true, if_false, if_true] at hactions
    refine ⟨hactions, fun hm' => ?_⟩
    rw [pureAlwaysMatch, if_pos hm'] at halways
    cases halways

lemma convertActions_length_flow {a : SecRuleActions} {t : SeclangActions α}
    (h : convertActions lib (some a) = .ok t) : t.flowActions.length = a.flow.length := by
  obtain ⟨data, -, h⟩ := bind_eq_ok.mp h
  obtain ⟨disruptive, -, h⟩ := bind_eq_ok.mp h
  obtain ⟨flow, hflow, h⟩ := bind_eq_ok.mp h
  obtain ⟨nonDisruptive, -, h⟩ := bind_eq_ok.mp h
  rw [← pure_eq_ok.mp h]
  exact (mapM_eq_ok.mp hflow).length_eq.symm

lemma convertCondition_eq_ok {cond : Condition} {c : CrsCondition}
    (h : convertCondition lib cond = .ok c) :
    c.script = cond.script ∧ (c.vars = [] ↔ cond.vars = []) ∧
      (c.collections = [] ↔ cond.collections = []) := by
  obtain ⟨ts, -, h⟩ := bind_eq_ok.mp h
  rw [← pure_eq_ok.mp h]
  exact ⟨rfl, map_eq_nil_iff, map_eq_nil_iff⟩

lemma alwaysMatchToRuleWithCondition_eq {metadata : Option SecRuleMetadata}
    {actions : Option SecRuleActions} (hm : m.alwaysMatch = true) (hvars : m.vars = [])
    (hcollections : m.collections = []) (hscript : m.script = "") :
    alwaysMatchToRuleWithCondition lib metadata m actions =
      secLangSecRuleToRuleWithCondition lib ⟨metadata, [m.toCondition], actions, ""⟩ := by
  simp only [alwaysMatchToRuleWithCondition, secLangSecRuleToRuleWithCondition, mapM_cons, mapM_nil,
    convertCondition, Match.toCondition, hm, hvars, hcollections, hscript, if_true, map_nil]
  cases mapAPITransformations lib m.transformations with
  | error e => rfl
  | ok ts => rfl

lemma convertSingleRuleForm_singleton {source : SecRule} (hm : source.spec.matchLinks = [m])
    (hactions : m.actions = none) :
    convertSingleRuleForm lib source =
      (if m.alwaysMatch then
        alwaysMatchToRuleWithCondition lib source.spec.metadata m source.spec.actions
      else
        secLangSecRuleToRuleWithCondition lib
          ⟨source.spec.metadata, [m.toCondition], source.spec.actions, ""⟩).map
      fun head => .rule { head } :: markerDirectives source.spec.markerAfter := by
  have hlink : convertLink lib source.spec m 0 1 = secLangSecRuleToRuleWithCondition lib
      ⟨source.spec.metadata, [m.toCondition], source.spec.actions, ""⟩ := by
    have hlinkActions : linkActions source.spec m 0 1 = source.spec.actions := by
      rw [linkActions, hactions]
      rfl
    have hneed : decide (0 + 1 ≠ 1 ∧ 1 < 1) = false := by decide
    simp only [convertLink, matchToRuleWithCondition, hlinkActions, hneed, if_true,
      Bool.false_eq_true, if_false]
    cases secLangSecRuleToRuleWithCondition lib
      ⟨source.spec.metadata, [m.toCondition], source.spec.actions, ""⟩ <;> rfl
  unfold convertSingleRuleForm
  rw [hm]
  by_cases halways : m.alwaysMatch = true
  · simp only [isEmpty_cons, Bool.false_eq_true, if_false, pureAlwaysMatch, halways, if_true,
      hactions, Option.isSome_none]
    cases alwaysMatchToRuleWithCondition lib source.spec.metadata m source.spec.actions <;> rfl
  · simp only [isEmpty_cons, Bool.false_eq_true, if_false, pureAlwaysMatch, halways,
      convertLinks, length_singleton, hlink]
    cases secLangSecRuleToRuleWithCondition lib
      ⟨source.spec.metadata, [m.toCondition], source.spec.actions, ""⟩ <;> rfl

end

end KubeWaf.Seclang
