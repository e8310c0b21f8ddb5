import KubeWaf.Crs.Converter
import KubeWaf.Seclang.ConvertShape
import KubeWaf.Seclang.FromCrsTheorems

/-!
# Bag mode against one-per-rule mode

The directives that the two modes of the converter lead to. A bag entry is converted without
its `ChainedRule` but keeps its `chain` action, so that the bag takes the following rule for
the rest of the chain. The modes agree on the files whose rules have neither.
-/

namespace KubeWaf.Crs

open Lib Seclang List

variable {marker : String} {rules : List SecLangSecRule}

section
variable {α : Type} (lib : Crslang α)

/-! ## Rendering what the converter wrote -/

section
variable (labels : List (String × String)) (ns namePrefix fileCRName : String)

/-- The directives of the `SecRule` written in bag mode. -/
def bagDirectives (file : List (DirectiveGroup α)) : Except String (List (SeclangDirective α)) := do
  let g ← writeBagMode lib labels ns fileCRName (fileEntries file)
  convertSecRule lib g.secRule

/-- The directives of the `SecRule`s written in one-per-rule mode, in file order. -/
def oneDirectives (file : List (DirectiveGroup α)) : Except String (List (SeclangDirective α)) := do
  let gs ← writeOnePerRuleMode lib labels ns namePrefix fileCRName (fileEntries file)
  let ds ← gs.mapM fun g => convertSecRule lib g.secRule
  return ds.flatten

end

/-- A bag entry on its own: a rule without chain, and its marker. -/
def entryDirectives (secRule : SecLangSecRule) : Except String (List (SeclangDirective α)) := do
  let head ← secLangSecRuleToRuleWithCondition lib secRule
  return .rule { head } :: markerDirectives secRule.secMarker

/-- One entry in bag mode, on its own. -/
def bagEntry (e : RuleEntry α) : Except String (List (SeclangDirective α)) :=
  convertCrsRule lib e.rule.head e.marker >>= entryDirectives lib

/-- One entry in one-per-rule mode. -/
def oneEntry (e : RuleEntry α) : Except String (List (SeclangDirective α)) :=
  convertCrsRuleToSingleForm lib e.rule e.marker >>= fun spec => convertSingleRuleForm lib { spec }

/-- A rule that both modes write alike: no chain, neither as link nor as action, and one
condition, which tests nothing if it always matches. -/
structure Plain (r : RuleWithCondition α) : Prop where
  chain : r.chain = []
  flow : ∀ a ∈ r.head.actions.flowActions, lib.getKey a ≠ "chain"
  condition : ∃ c, r.head.conditions = [c] ∧
    (c.alwaysMatch = true → c.vars = [] ∧ c.collections = [] ∧ c.script = "")

/-! ## The bag -/

section
variable {lib} {ds d : List (SeclangDirective α)} {entries : List (RuleEntry α)} {e : RuleEntry α}
  {dss : List (List (SeclangDirective α))} {rest : List SecLangSecRule} {cur : SecLangSecRule}

/-- The number of rules among directives. -/
def ruleCount (ds : List (SeclangDirective α)) : ℕ :=
  ds.countP fun d => match d with
    | .rule _ => true
    | .secMarker _ => false

@[simp] lemma ruleCount_markerDirectives (marker : String) :
    ruleCount (markerDirectives marker : List (SeclangDirective α)) = 0 := by
  unfold markerDirectives
  split_ifs <;> rfl

@[simp] lemma ruleCount_rule_cons (r : RuleWithCondition α) (ds : List (SeclangDirective α)) :
    ruleCount (.rule r :: ds) = ruleCount ds + 1 :=
  countP_cons_of_pos rfl

@[simp] lemma ruleCount_append (ds ds' : List (SeclangDirective α)) :
    ruleCount (ds ++ ds') = ruleCount ds + ruleCount ds' :=
  countP_append

lemma consumeChain_of_not_chain (h : rest ≠ [] → hasChainInFlow cur = false) :
    consumeChain lib cur rest = .ok ([], cur.secMarker, rest) := by
  cases rest with
  | nil => rfl
  | cons next rest =>
    rw [consumeChain, if_neg (by rw [h (cons_ne_nil _ _)]; exact Bool.false_ne_true)]

lemma consumeChain_length {rest' : List SecLangSecRule} {links : List (RuleLink α)}
    (h : consumeChain lib cur rest = .ok (links, marker, rest')) :
    rest'.length ≤ rest.length ∧
      (rest ≠ [] → hasChainInFlow cur = true → rest'.length < rest.length) := by
  induction rest generalizing cur links marker rest' with
  | nil =>
    cases h
    exact ⟨le_rfl, fun hne => absurd rfl hne⟩
  | cons next rest ih =>
    rw [consumeChain] at h
    by_cases hchain : hasChainInFlow cur = true
    · rw [if_pos hchain] at h
      obtain ⟨link, -, h⟩ := bind_eq_ok.mp h
      obtain ⟨⟨links', marker', rest''⟩, hrest, h⟩ := bind_eq_ok.mp h
      cases pure_eq_ok.mp h
      have hle := (ih hrest).1
      rw [length_cons]
      exact ⟨by omega, fun _ _ => by omega⟩
    · rw [if_neg hchain] at h
      cases h
      exact ⟨le_rfl, fun _ hc => absurd hc hchain⟩

/-- No entry but the last has a `chain` action. -/
def NoAbsorption (rules : List SecLangSecRule) : Prop :=
  List.IsChain (fun r _ => hasChainInFlow r = false) rules

lemma noAbsorption_cons {r : SecLangSecRule} :
    NoAbsorption (r :: rules) ↔ (rules ≠ [] → hasChainInFlow r = false) ∧ NoAbsorption rules := by
  cases rules with
  | nil => simp [NoAbsorption]
  | cons next rules => simp [NoAbsorption, isChain_cons_cons]

lemma ruleCount_convertBag {n : ℕ} (hn : rules.length ≤ n) (h : convertBag lib n rules = .ok ds) :
    ruleCount ds ≤ rules.length ∧ (ruleCount ds = rules.length → NoAbsorption rules) := by
  induction n generalizing rules ds with
  | zero =>
    have hrules : rules = [] := length_eq_zero_iff.mp (Nat.le_zero.mp hn)
    rw [hrules] at h ⊢
    cases h
    exact ⟨le_rfl, fun _ => .nil⟩
  | succ n ih =>
    cases rules with
    | nil =>
      cases h
      exact ⟨le_rfl, fun _ => .nil⟩
    | cons r rest =>
      obtain ⟨head, -, h⟩ := bind_eq_ok.mp h
      obtain ⟨⟨chain, lastMarker, rest'⟩, hchain, h⟩ := bind_eq_ok.mp h
      obtain ⟨more, hmore, h⟩ := bind_eq_ok.mp h
      rw [← pure_eq_ok.mp h]
      obtain ⟨hle, hlt⟩ := consumeChain_length hchain
      rw [length_cons] at hn ⊢
      obtain ⟨hcount, habsorb⟩ := ih (by omega) hmore
      simp only [cons_append, ruleCount_rule_cons, ruleCount_append, ruleCount_markerDirectives]
      refine ⟨by omega, fun heq => ?_⟩
      -- the count is reached only if the first entry has absorbed nothing
      have hfirst : rest ≠ [] → hasChainInFlow r = false := by
        intro hne
        by_contra hc
        have := hlt hne (eq_true_of_ne_false hc)
        omega
      rw [consumeChain_of_not_chain hfirst] at hchain
      cases hchain
      exact (noAbsorption_cons).mpr ⟨hfirst, habsorb (by omega)⟩

lemma convertBag_eq_ok_iff {n : ℕ} (hn : rules.length ≤ n) (h : NoAbsorption rules) :
    convertBag lib n rules = .ok ds ↔
      ∃ dss, rules.mapM (entryDirectives lib) = .ok dss ∧ ds = dss.flatten := by
  induction n generalizing rules ds with
  | zero =>
    have hrules : rules = [] := length_eq_zero_iff.mp (Nat.le_zero.mp hn)
    subst hrules
    simp [convertBag, pure, Except.pure, eq_comm]
  | succ n ih =>
    cases rules with
    | nil => simp [convertBag, pure, Except.pure, eq_comm]
    | cons r rest =>
      obtain ⟨hfirst, hrest⟩ := (noAbsorption_cons).mp h
      rw [length_cons] at hn
      have ih := fun ds => @ih rest ds (by omega) hrest
      rw [convertBag, consumeChain_of_not_chain hfirst, mapM_cons]
      simp only [bind_eq_ok, pure_eq_ok, Except.ok.injEq, entryDirectives]
      constructor
      · rintro ⟨head, hhead, _, rfl, more, hmore, rfl⟩
        obtain ⟨dss, hdss, rfl⟩ := (ih more).mp hmore
        refine ⟨_, ⟨_, ⟨head, hhead, rfl⟩, dss, hdss, rfl⟩, ?_⟩
        simp
      · rintro ⟨_, ⟨_, ⟨head, hhead, rfl⟩, dss, hdss, rfl⟩, rfl⟩
        refine ⟨head, hhead, _, rfl, dss.flatten, (ih _).mpr ⟨dss, hdss, rfl⟩, ?_⟩
        simp

/-! ## Entry by entry -/

section
variable {labels : List (String × String)} {ns namePrefix fileCRName : String}
  {file : List (DirectiveGroup α)} {r : RuleWithCondition α}

lemma bagDirectives_eq_ok :
    bagDirectives lib labels ns fileCRName file = .ok ds ↔
      ∃ rules, (fileEntries file).mapM (fun e => convertCrsRule lib e.rule.head e.marker) =
          .ok rules ∧
        convertBag lib rules.length rules = .ok ds := by
  unfold bagDirectives writeBagMode
  rw [bind_eq_ok]
  cases hrules : (fileEntries file).mapM fun e => convertCrsRule lib e.rule.head e.marker with
  | error e => simp
  | ok rules =>
    simp [convertSecRule, SecRuleSpec.isSingleRuleForm, convertLegacySecLangRules,
      markerDirectives]

lemma orderFromID_of_convert {spec : SecRuleSpec}
    (h : convertCrsRuleToSingleForm lib r marker = .ok spec) :
    (if spec.order = 0 then orderFromID spec else spec) = spec := by
  obtain ⟨_, _, _, _, rfl⟩ := convertCrsRuleToSingleForm_eq_ok h
  rw [orderFromID_orderFromID, ite_self]

lemma generateRules_specs {index : ℕ} {usedNames : List (String × ℕ)} {specs : List SecRuleSpec} :
    (∃ gs, generateRules lib labels ns namePrefix fileCRName index usedNames entries = .ok gs ∧
      gs.map (·.secRule.spec) = specs) ↔
    (entries.mapM fun e => convertCrsRuleToSingleForm lib e.rule e.marker) = .ok specs := by
  induction entries generalizing index usedNames specs with
  | nil => simp [generateRules, pure, Except.pure]
  | cons e entries ih =>
    rw [mapM_cons, bind_eq_ok]
    cases hspec : convertCrsRuleToSingleForm lib e.rule e.marker with
    | error e => simp [generateRules, hspec]
    | ok spec =>
      simp only [generateRules, hspec, orderFromID_of_convert hspec, bind_eq_ok, pure_eq_ok, Except.ok.injEq,
        exists_eq_left']
      constructor
      · rintro ⟨gs, ⟨rest, hrest, rfl⟩, rfl⟩
        exact ⟨_, ih.mp ⟨rest, hrest, rfl⟩, rfl⟩
      · rintro ⟨specs, hspecs, rfl⟩
        obtain ⟨rest, hrest, rfl⟩ := ih.mpr hspecs
        exact ⟨_, ⟨rest, hrest, rfl⟩, rfl⟩

lemma metadata_of_convertCrsRuleToSingleForm {spec : SecRuleSpec}
    (h : convertCrsRuleToSingleForm lib r marker = .ok spec) :
    spec.metadata = some (crsMetadata r.head) := by
  obtain ⟨_, _, _, _, rfl⟩ := convertCrsRuleToSingleForm_eq_ok h
  rw [orderFromID_metadata]

lemma oneDirectives_eq_ok :
    oneDirectives lib labels ns namePrefix fileCRName file = .ok ds ↔
      ∃ dss, (fileEntries file).mapM (oneEntry lib) = .ok dss ∧ ds = dss.flatten := by
  have hconvert : ∀ gs : List Generated,
      (fileEntries file).mapM (fun e => convertCrsRuleToSingleForm lib e.rule e.marker) =
        .ok (gs.map (·.secRule.spec)) →
      gs.mapM (fun g => convertSecRule lib g.secRule) =
        (gs.map (·.secRule.spec)).mapM fun spec => convertSingleRuleForm lib { spec } := by
    intro gs hgs
    rw [mapM_map]
    refine mapM_congr_of_mem fun g hg => convertSecRule_of_metadata ?_
    obtain ⟨e, -, he⟩ := exists_of_mem_mapM hgs (mem_map_of_mem hg)
    rw [metadata_of_convertCrsRuleToSingleForm he]
    rfl
  unfold oneDirectives writeOnePerRuleMode oneEntry
  simp only [bind_eq_ok, pure_eq_ok, ← mapM_mapM_eq_ok]
  constructor
  · rintro ⟨gs, hgs, dss, hdss, rfl⟩
    have hspecs := (generateRules_specs).mp ⟨gs, hgs, rfl⟩
    exact ⟨dss, ⟨_, hspecs, hconvert gs hspecs ▸ hdss⟩, rfl⟩
  · rintro ⟨dss, ⟨specs, hspecs, hdss⟩, rfl⟩
    obtain ⟨gs, hgs, rfl⟩ := (generateRules_specs).mpr hspecs
    exact ⟨gs, hgs, dss, (hconvert gs hspecs).trans hdss, rfl⟩

end

lemma bagEntry_eq_oneEntry (h : Plain lib e.rule) : bagEntry lib e = oneEntry lib e := by
  obtain ⟨c, hconditions, halways⟩ := h.condition
  unfold bagEntry oneEntry convertCrsRule
  rw [convertCrsRuleToSingleForm_singleton h.chain hconditions, hconditions, mapM_cons,
    mapM_nil, withoutChain_eq_self h.flow]
  cases hcond : convertCrsCondition lib c with
  | error err => rfl
  | ok cond =>
    obtain ⟨ham, hscript, hvars, hcollections⟩ := convertCrsCondition_eq_ok hcond
    change entryDirectives lib ⟨some (crsMetadata e.rule.head), [cond],
      some (secActionToAPI lib e.rule.head.actions), e.marker⟩ = convertSingleRuleForm lib _
    rw [convertSingleRuleForm_singleton (m := cond.toMatch) (by rw [orderFromID_matchLinks]) rfl]
    simp only [orderFromID_metadata, orderFromID_actions, orderFromID_markerAfter]
    have hlink : (if cond.toMatch.alwaysMatch = true then
        alwaysMatchToRuleWithCondition lib (some (crsMetadata e.rule.head)) cond.toMatch
          (some (secActionToAPI lib e.rule.head.actions))
      else secLangSecRuleToRuleWithCondition lib ⟨some (crsMetadata e.rule.head),
        [cond.toMatch.toCondition], some (secActionToAPI lib e.rule.head.actions), ""⟩) =
      secLangSecRuleToRuleWithCondition lib ⟨some (crsMetadata e.rule.head),
        [cond], some (secActionToAPI lib e.rule.head.actions), e.marker⟩ := by
      by_cases hm : cond.toMatch.alwaysMatch = true
      · -- the condition tests nothing, so leaving variables and script out changes nothing
        obtain ⟨hv, hc, hs⟩ := halways (ham ▸ hm)
        rw [if_pos hm, alwaysMatchToRuleWithCondition_eq hm (hvars.mpr hv) (hcollections.mpr hc)
          (hscript.trans hs)]
        rfl
      · rw [if_neg hm]
        rfl
    rw [hlink, entryDirectives]
    cases secLangSecRuleToRuleWithCondition lib ⟨some (crsMetadata e.rule.head), [cond],
      some (secActionToAPI lib e.rule.head.actions), e.marker⟩ <;> rfl

lemma bagEntry_eq_ok (h : bagEntry lib e = .ok d) :
    ∃ conditions head, e.rule.head.conditions.mapM (convertCrsCondition lib) = .ok conditions ∧
      secLangSecRuleToRuleWithCondition lib ⟨some (crsMetadata e.rule.head), conditions,
        some (secActionToAPI lib e.rule.head.actions), e.marker⟩ = .ok head ∧
      d = .rule { head } :: markerDirectives e.marker := by
  obtain ⟨secRule, hsecRule, h⟩ := bind_eq_ok.mp h
  obtain ⟨conditions, hconditions, rfl⟩ := convertCrsRule_eq_ok.mp hsecRule
  obtain ⟨head, hhead, h⟩ := bind_eq_ok.mp h
  exact ⟨conditions, head, hconditions, hhead, (pure_eq_ok.mp h).symm⟩

lemma oneEntry_eq_ok (h : oneEntry lib e = .ok d) :
    ∃ conditions ms spec r, e.rule.head.conditions.mapM (convertCrsCondition lib) =
        .ok conditions ∧
      MatchesOf e.rule conditions ms ∧ spec.matchLinks = ms ∧
      spec.actions = some (withoutChain (secActionToAPI lib e.rule.head.actions)) ∧
      BuiltFrom lib spec ms r ∧ d = .rule r :: markerDirectives e.marker := by
  obtain ⟨spec, hspec, h⟩ := bind_eq_ok.mp h
  obtain ⟨r, rfl, hbuilt⟩ := convertSingleRuleForm_builtFrom h
  obtain ⟨conditions, ms, hconditions, hms, rfl⟩ := convertCrsRuleToSingleForm_eq_ok hspec
  have hne : ms ≠ [] := by
    rcases hms with ⟨-, hlt, rfl⟩ | ⟨-, rest, rfl, -⟩
    · rw [ne_eq, map_eq_nil_iff]
      intro hnil
      rw [hnil, length_nil] at hlt
      omega
    · exact cons_ne_nil _ _
  rw [effectiveMatches, orderFromID_matchLinks, if_neg (by simpa using hne)] at hbuilt
  refine ⟨conditions, ms, _, r, hconditions, hms, ?_, ?_, hbuilt, ?_⟩
  · rw [orderFromID_matchLinks]
  · rw [orderFromID_actions]
  · rw [orderFromID_markerAfter]

lemma plain_of_entries_eq (hbag : bagEntry lib e = .ok d) (hone : oneEntry lib e = .ok d) :
    Plain lib e.rule := by
  obtain ⟨conditions, head, hconditions, hhead, rfl⟩ := bagEntry_eq_ok hbag
  obtain ⟨conditions', ms, spec, r, hconditions', hms, hlinks, hactions, hbuilt, hd⟩ :=
    oneEntry_eq_ok hone
  cases hconditions.symm.trans hconditions'
  have hr : r = { head } := by
    have := head_eq_of_cons_eq hd
    exact (SeclangDirective.rule.inj this).symm
  subst hr
  obtain ⟨-, hlinkConditions, hlinkActions⟩ := secLangSecRuleToRuleWithCondition_eq_ok.mp hhead
  -- one link means one match entry, hence no chain and at most one condition
  have hlength : ms.length = 1 := hbuilt.length_links.symm
  have hcount : conditions.length = 1 := by
    rw [(mapM_eq_ok.mp hlinkConditions).length_eq]
    exact hbuilt.length_conditions
  have hchain : e.rule.chain = [] := by
    rcases hms with ⟨hchain, -⟩ | ⟨-, rest, rfl, hrest⟩
    · exact hchain
    · rw [length_cons] at hlength
      exact length_eq_zero_iff.mp (by omega)
  obtain ⟨c, hc⟩ := length_eq_one_iff.mp ((mapM_eq_ok.mp hconditions).length_eq.trans hcount)
  obtain ⟨cond, rfl⟩ := length_eq_one_iff.mp hcount
  have hm : ms = [cond.toMatch] := by
    rcases hms with ⟨-, hlt, -⟩ | ⟨-, rest, rfl, hrest⟩
    · rw [hcount] at hlt
      omega
    · rw [hchain, length_nil, length_eq_zero_iff] at hrest
      rw [hrest]
      rfl
  subst hm
  obtain ⟨hspecActions, hnothing⟩ := hbuilt.singleton rfl
  rw [hactions] at hspecActions
  refine ⟨hchain, ?_, c, hc, fun halways => ?_⟩
  · rw [← withoutChain_secActionToAPI, ← convertActions_length_flow hspecActions,
      convertActions_length_flow hlinkActions, secActionToAPI, length_map]
  · rw [hc] at hconditions
    obtain ⟨hcond, -⟩ := forall₂_cons.mp (mapM_eq_ok.mp hconditions)
    obtain ⟨ham, hscript, hvars, hcollections⟩ := convertCrsCondition_eq_ok hcond
    obtain ⟨c', _, hc', -, hcs'⟩ :=
      forall₂_cons_left_iff.mp (mapM_eq_ok.mp hlinkConditions)
    obtain ⟨hscript', hvars', hcollections'⟩ := convertCondition_eq_ok hc'
    have hmem : c' ∈ head.conditions := hcs' ▸ mem_cons_self
    obtain ⟨hv, hcs, hs⟩ := hnothing (ham.trans halways) c' hmem
    exact ⟨hvars.mp (hvars'.mp hv), hcollections.mp (hcollections'.mp hcs),
      hscript.symm.trans (hscript'.symm.trans hs)⟩

/-! ## Files -/

lemma ruleCount_flatten (h : entries.mapM (oneEntry lib) = .ok dss) :
    ruleCount dss.flatten = entries.length := by
  have hall := mapM_eq_ok.mp h
  clear h
  induction hall with
  | nil => rfl
  | @cons e d entries dss he hall ih =>
    obtain ⟨_, _, _, r, _, _, _, _, _, rfl⟩ := oneEntry_eq_ok he
    rw [flatten_cons, ruleCount_append, ruleCount_rule_cons, ruleCount_markerDirectives, ih,
      length_cons]
    omega

lemma entries_eq_of_flatten_eq {dss' : List (List (SeclangDirective α))}
    (h : entries.mapM (bagEntry lib) = .ok dss) (h' : entries.mapM (oneEntry lib) = .ok dss')
    (heq : dss.flatten = dss'.flatten) : dss = dss' := by
  have hall := mapM_eq_ok.mp h
  have hall' := mapM_eq_ok.mp h'
  clear h h'
  induction hall generalizing dss' with
  | nil =>
    cases hall'
    rfl
  | @cons e d entries dss he hall ih =>
    cases hall' with
    | @cons _ d' _ dss' he' hall' =>
      obtain ⟨_, head, _, _, rfl⟩ := bagEntry_eq_ok he
      obtain ⟨_, _, _, r, _, _, _, _, _, rfl⟩ := oneEntry_eq_ok he'
      rw [flatten_cons, flatten_cons, cons_append, cons_append,
        List.cons.injEq, append_cancel_left_eq] at heq
      rw [heq.1, ih heq.2 hall']

/-- The rules of a file, in order. -/
def fileRules (file : List (DirectiveGroup α)) : List (RuleWithCondition α) :=
  file.flatMap DirectiveGroup.rules

lemma groupEntries_rules (marker : String) (rs : List (RuleWithCondition α)) :
    (groupEntries marker rs).map (·.rule) = rs := by
  induction rs with
  | nil => rfl
  | cons r rs ih =>
    cases rs with
    | nil => rfl
    | cons r' rs =>
      change r :: (groupEntries marker (r' :: rs)).map (·.rule) = _
      rw [ih]

lemma fileEntries_rules (file : List (DirectiveGroup α)) :
    (fileEntries file).map (·.rule) = fileRules file := by
  unfold fileEntries fileRules
  rw [map_flatMap]
  simp [groupEntries_rules]

section
variable {labels : List (String × String)} {ns namePrefix fileCRName : String}
  {file : List (DirectiveGroup α)}

lemma bagDirectives_eq_ok_of_plain (h : ∀ e ∈ fileEntries file, Plain lib e.rule) :
    bagDirectives lib labels ns fileCRName file = .ok ds ↔
      ∃ dss, (fileEntries file).mapM (bagEntry lib) = .ok dss ∧ ds = dss.flatten := by
  rw [bagDirectives_eq_ok]
  unfold bagEntry
  simp only [← mapM_mapM_eq_ok]
  have hrules : ∀ rules,
      (fileEntries file).mapM (fun e => convertCrsRule lib e.rule.head e.marker) = .ok rules →
      NoAbsorption rules := by
    intro rules hrules
    have hchain : ∀ r ∈ rules, hasChainInFlow r = false := by
      intro r hr
      obtain ⟨e, he, hconvert⟩ := exists_of_mem_mapM hrules hr
      exact (hasChainInFlow_convertCrsRule hconvert).mpr (h e he).flow
    exact isChain_iff_getElem.mpr fun i hi => hchain _ (getElem_mem _)
  constructor
  · rintro ⟨rules, hconvert, hbag⟩
    obtain ⟨dss, hdss, rfl⟩ := (convertBag_eq_ok_iff le_rfl (hrules rules hconvert)).mp hbag
    exact ⟨dss, ⟨rules, hconvert, hdss⟩, rfl⟩
  · rintro ⟨dss, ⟨rules, hconvert, hdss⟩, rfl⟩
    exact ⟨rules, hconvert,
      (convertBag_eq_ok_iff le_rfl (hrules rules hconvert)).mpr ⟨dss, hdss, rfl⟩⟩

lemma entries_eq_of_modes_eq (hbag : bagDirectives lib labels ns fileCRName file = .ok ds)
    (hone : oneDirectives lib labels ns namePrefix fileCRName file = .ok ds) :
    ∃ dss, (fileEntries file).mapM (bagEntry lib) = .ok dss ∧
      (fileEntries file).mapM (oneEntry lib) = .ok dss := by
  obtain ⟨rules, hconvert, hconvertBag⟩ := (bagDirectives_eq_ok).mp hbag
  obtain ⟨dss, hdss, rfl⟩ := (oneDirectives_eq_ok).mp hone
  -- one-per-rule mode has a rule for each entry, so the bag cannot have absorbed any
  have hlength : rules.length = (fileEntries file).length :=
    (mapM_eq_ok.mp hconvert).length_eq.symm
  have habsorb := (ruleCount_convertBag le_rfl hconvertBag).2
    ((ruleCount_flatten hdss).trans hlength.symm)
  obtain ⟨dss', hdss', heq⟩ := (convertBag_eq_ok_iff le_rfl habsorb).mp hconvertBag
  have hentries : (fileEntries file).mapM (bagEntry lib) = .ok dss' :=
    mapM_mapM_eq_ok.mp ⟨rules, hconvert, hdss'⟩
  rw [← entries_eq_of_flatten_eq hentries hdss heq.symm] at hdss
  exact ⟨dss', hentries, hdss⟩

end

end

/-- The two modes lead to the same directives exactly for the files whose rules are all plain.
The hypothesis leaves out the files that neither mode can convert. -/
theorem modes_agree_iff (labels : List (String × String)) (ns namePrefix fileCRName : String)
    (file : List (DirectiveGroup α))
    (h : ∃ ds, bagDirectives lib labels ns fileCRName file = .ok ds ∨
      oneDirectives lib labels ns namePrefix fileCRName file = .ok ds) :
    (∀ ds, bagDirectives lib labels ns fileCRName file = .ok ds ↔
      oneDirectives lib labels ns namePrefix fileCRName file = .ok ds) ↔
    ∀ r ∈ fileRules file, Plain lib r := by
  have hrules : (∀ r ∈ fileRules file, Plain lib r) ↔ ∀ e ∈ fileEntries file, Plain lib e.rule := by
    rw [← fileEntries_rules, forall_mem_map]
  rw [hrules]
  constructor
  · intro hagree e he
    obtain ⟨ds, hds⟩ := h
    have hbag : bagDirectives lib labels ns fileCRName file = .ok ds :=
      hds.elim id (hagree ds).mpr
    obtain ⟨dss, hdss, hdss'⟩ := entries_eq_of_modes_eq hbag ((hagree ds).mp hbag)
    obtain ⟨d, hd, hd'⟩ := exists_of_mem_of_mapM hdss hdss' he
    exact plain_of_entries_eq hd hd'
  · intro hplain ds
    rw [bagDirectives_eq_ok_of_plain hplain, oneDirectives_eq_ok,
      mapM_congr_of_mem fun e he => bagEntry_eq_oneEntry (hplain e he)]

end

/-! ## A chain in a file -/

/-- A link that tests a variable. -/
def testLink (id : Int) (name : VariableName) (flow : List PlainAction) : RuleLink PlainAction where
  metadata := { id }
  conditions := [{ vars := [⟨.known name, false⟩], operator := { name := .known .rx, value := "x" } }]
  actions := { flowActions := flow }

/-- Two rules without chain, and a marker. -/
def plainFile : List (DirectiveGroup PlainAction) :=
  [{ directives := [.rule { head := testLink 100 .REQUEST_URI [] }, .other,
      .rule { head := testLink 200 .REQUEST_BODY [] }]
     marker := ⟨.secMarker, "END"⟩ }]

theorem plainFile_modes_agree :
    (∃ ds, bagDirectives plainCrslang [] "" "crs" plainFile = .ok ds) ∧
    ∀ ds, bagDirectives plainCrslang [] "" "crs" plainFile = .ok ds ↔
      oneDirectives plainCrslang [] "" "crs-" "crs" plainFile = .ok ds := by
  have hbag : bagDirectives plainCrslang [] "" "crs" plainFile =
      .ok [.rule { head := testLink 100 .REQUEST_URI [] },
        .rule { head := testLink 200 .REQUEST_BODY [] }, .secMarker "END"] := by decide
  refine ⟨⟨_, hbag⟩, (modes_agree_iff plainCrslang [] "" "crs-" "crs" plainFile ⟨_, .inl hbag⟩).mpr ?_⟩
  intro r hr
  simp only [fileRules, plainFile, DirectiveGroup.rules, GroupDirective.rule?, flatMap_cons,
    flatMap_nil, append_nil, filterMap_cons, filterMap_nil, mem_cons, not_mem_nil, or_false] at hr
  rcases hr with rfl | rfl
  · exact ⟨rfl, by simp [testLink], _, rfl, by simp⟩
  · exact ⟨rfl, by simp [testLink], _, rfl, by simp⟩

/-- A rule with one chained link, and a rule behind it. -/
def chainFile : List (DirectiveGroup PlainAction) :=
  [{ directives := [
      .rule {
        head := testLink 100 .REQUEST_URI [{ key := "chain" }]
        chain := [testLink 0 .REQUEST_BODY []] },
      .rule { head := testLink 200 .REQUEST_METHOD [] }] }]

/-- In bag mode the second rule becomes the chained link of the first, whose own link is lost. -/
theorem chainFile_modes_differ :
    bagDirectives plainCrslang [] "" "crs" chainFile =
      .ok [.rule {
        head := testLink 100 .REQUEST_URI [{ key := "chain" }]
        chain := [testLink 200 .REQUEST_METHOD []] }] ∧
    oneDirectives plainCrslang [] "" "crs-" "crs" chainFile =
      .ok [.rule {
          head := testLink 100 .REQUEST_URI [{ key := "chain" }]
          chain := [testLink 0 .REQUEST_BODY []] },
        .rule { head := testLink 200 .REQUEST_METHOD [] }] ∧
    bagDirectives plainCrslang [] "" "crs" chainFile ≠
      oneDirectives plainCrslang [] "" "crs-" "crs" chainFile := by
  decide

end KubeWaf.Crs
