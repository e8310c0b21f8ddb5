import KubeWaf.Seclang.ActionKinds
import KubeWaf.Seclang.ConvertTheorems

/-!
# From crslang and back

`ConvertSecRule` after `ConvertCrsRuleToSingleForm`: a rule comes back with its conditions, the
kinds of its actions, its metadata and its marker.
-/

namespace KubeWaf.Seclang

open Lib List

variable {c : CrsCondition} {cond : Condition} {conds : List Condition}

section
variable {α : Type} {link : RuleLink α} {r : RuleWithCondition α}

/-! ## Conditions -/

/-- The spelling aliases of a transformation: itself, or the British form of an American one. -/
def Alias (lib : Crslang α) (t t' : CrsEnum Transformation) : Prop :=
  t' = t ∨
    (lib.transformationString t = "normalizePath" ∧ t' = .known .normalisePath) ∨
    (lib.transformationString t = "normalizePathWin" ∧ t' = .known .normalisePathWin)

/-- A transformation that the mapper knows. -/
def MappedTransformation (lib : Crslang α) (t : CrsEnum Transformation) : Prop :=
  (∃ a, t = .known a ∧ a ≠ .unknownTransformation) ∨
    lib.transformationString t ∈ ["normalizePath", "normalizePathWin"]

/-- A condition whose names are all in the mapped enumerations. crslang leaves the operator of an
always-match condition empty. -/
structure CrsCondition.Mapped (lib : Crslang α) (c : CrsCondition) : Prop where
  vars : ∀ v ∈ c.vars, ∃ a, v.name = .known a
  collections : ∀ v ∈ c.collections, ∃ a, v.name = .known a
  operator : c.alwaysMatch = false → ∃ a, c.operator.name = .known a
  transformations : ∀ t ∈ c.transformations, MappedTransformation lib t

/-- The same condition, up to the spelling of transformations and the operator of an always-match
condition. -/
structure SameCondition (lib : Crslang α) (c c' : CrsCondition) : Prop where
  vars : c'.vars = c.vars
  collections : c'.collections = c.collections
  script : c'.script = c.script
  alwaysMatch : c'.alwaysMatch = c.alwaysMatch
  operator : c.alwaysMatch = false → c'.operator = c.operator
  transformations : List.Forall₂ (Alias lib) c.transformations c'.transformations

lemma mapIndexed_go_of_forall₂ {τ σ : Type} {f : τ → Except String σ} {ts : List τ}
    {ss : List σ} (h : List.Forall₂ (fun t s => f t = .ok s) ts ss) (i : ℕ) :
    mapIndexed.go f i ts = .ok ss := by
  induction h generalizing i with
  | nil => rfl
  | cons hts _ ih =>
    rw [mapIndexed.go, hts]
    simp only
    rw [ih (i + 1)]

lemma text_of_plain {a : Transformation}
    (ha : a ∉ [.unknownTransformation, .normalisePath, .normalisePathWin]) :
    Go.trimSpace a.text = a.text ∧
      a.text ∉ ["", "unknown", "unknownTransformation", "normalizePath", "normalisePath",
        "normalizePathWin", "normalisePathWin"] := by
  revert ha
  cases a <;> decide

section
variable {lib : Crslang α} (hlib : lib.Documented)
include hlib

lemma transformation_of_plain {a : Transformation}
    (ha : a ∉ [.unknownTransformation, .normalisePath, .normalisePathWin]) :
    fromCRSTransformation lib (.known a) = .ok (.known a) ∧
      toCRSTransformation lib (.known a) = .ok (.known a) := by
  obtain ⟨htrim, htext⟩ := text_of_plain ha
  simp only [mem_cons, not_mem_nil, or_false, not_or] at ha htext
  have hstring := hlib.transformationString a ha.1
  have hvalid : validateAPITransformation (.known a) = .ok () := by
    unfold validateAPITransformation
    rw [show (ApiEnum.known a).toText Transformation.text = a.text from rfl, htrim]
    split
    case h_4 => rfl
    all_goals simp_all
  constructor
  · unfold fromCRSTransformation
    rw [hstring, show transformationReverseMapper (.known a) = .known a from rfl, hvalid]
    split
    all_goals first | rfl | simp_all
  · unfold toCRSTransformation
    rw [show (ApiEnum.known a).toText Transformation.text = a.text from rfl, htrim]
    split
    case h_8 =>
      have hknown : ¬((CrsEnum.known a) = .known .unknownTransformation ∨
          lib.transformationString (.known a) = "unknown") := by
        rw [hstring]
        simp_all
      exact if_neg hknown
    all_goals simp_all

lemma exists_transformation {t : CrsEnum Transformation} (ht : MappedTransformation lib t) :
    ∃ s t', fromCRSTransformation lib t = .ok s ∧ toCRSTransformation lib s = .ok t' ∧
      Alias lib t t' := by
  have hpath : toCRSTransformation lib (.known .normalisePath) = .ok (.known .normalisePath) := rfl
  have hpathWin : toCRSTransformation lib (.known .normalisePathWin) =
      .ok (.known .normalisePathWin) := rfl
  rcases ht with ⟨a, rfl, hunknown⟩ | ht
  · by_cases ha : a ∈ [.unknownTransformation, .normalisePath, .normalisePathWin]
    · simp only [mem_cons, not_mem_nil, or_false, hunknown, false_or] at ha
      have hstring := hlib.transformationString a hunknown
      rcases ha with rfl | rfl
      · exact ⟨_, _, by rw [fromCRSTransformation, hstring]; rfl, hpath, .inl rfl⟩
      · exact ⟨_, _, by rw [fromCRSTransformation, hstring]; rfl, hpathWin, .inl rfl⟩
    · obtain ⟨hfrom, hto⟩ := transformation_of_plain hlib ha
      exact ⟨_, _, hfrom, hto, .inl rfl⟩
  · simp only [mem_cons, not_mem_nil, or_false] at ht
    rcases ht with hstring | hstring
    · exact ⟨_, _, by rw [fromCRSTransformation, hstring]; rfl, hpath, .inr (.inl ⟨hstring, rfl⟩)⟩
    · exact ⟨_, _, by rw [fromCRSTransformation, hstring]; rfl, hpathWin,
        .inr (.inr ⟨hstring, rfl⟩)⟩

lemma exists_transformations {ts : List (CrsEnum Transformation)}
    (hts : ∀ t ∈ ts, MappedTransformation lib t) :
    ∃ ss ts', mapCRSTransformations lib ts = .ok ss ∧ mapAPITransformations lib ss = .ok ts' ∧
      List.Forall₂ (Alias lib) ts ts' := by
  have hlists : ∃ ss ts', List.Forall₂ (fun t s => fromCRSTransformation lib t = .ok s) ts ss ∧
      List.Forall₂ (fun s t' => toCRSTransformation lib s = .ok t') ss ts' ∧
      List.Forall₂ (Alias lib) ts ts' := by
    induction ts with
    | nil => exact ⟨[], [], .nil, .nil, .nil⟩
    | cons t ts ih =>
      obtain ⟨s, t', hfrom, hto, halias⟩ := exists_transformation hlib (hts t mem_cons_self)
      obtain ⟨ss, ts', hss, hts', haliases⟩ := ih fun u hu => hts u (mem_cons_of_mem t hu)
      exact ⟨s :: ss, t' :: ts', .cons hfrom hss, .cons hto hts', .cons halias haliases⟩
  obtain ⟨ss, ts', hss, hts', halias⟩ := hlists
  exact ⟨ss, ts', mapIndexed_go_of_forall₂ hss 0, mapIndexed_go_of_forall₂ hts' 0, halias⟩

lemma exists_condition (hc : c.Mapped lib) :
    ∃ cond c', convertCrsCondition lib c = .ok cond ∧ cond.alwaysMatch = c.alwaysMatch ∧
      convertCondition lib cond = .ok c' ∧ SameCondition lib c c' := by
  obtain ⟨ss, ts', hss, hts', halias⟩ := exists_transformations hlib hc.transformations
  have hvars : (c.vars.map fun v => ({ name := variableReverseMapper v.name
                                       excluded := v.excluded } : Variable)).map
      (fun v => ({ name := variableMapper v.name, excluded := v.excluded } : CrsVariable)) =
        c.vars := by
    rw [map_map]
    refine (map_congr_left ?_).trans (map_id _)
    intro v hv
    obtain ⟨a, ha⟩ := hc.vars v hv
    cases v
    cases ha
    rfl
  have hcollections : (c.collections.map fun v =>
      ({ arguments := v.arguments, excluded := v.excluded, count := v.count,
         name := collectionReverseMapper v.name } : Collection)).map
      (fun v => ({ arguments := v.arguments, excluded := v.excluded, count := v.count,
                   name := collectionMapper v.name } : CrsCollection)) = c.collections := by
    rw [map_map]
    refine (map_congr_left ?_).trans (map_id _)
    intro v hv
    obtain ⟨a, ha⟩ := hc.collections v hv
    cases v
    cases ha
    rfl
  have hoperator : c.alwaysMatch = false →
      ({ negate := (convertCrsOperator c).negate
         value := (convertCrsOperator c).value
         name := if (convertCrsOperator c).name = .text "" then .zero
          else operatorForwardMapper (convertCrsOperator c).name } : CrsOperator) =
        c.operator := by
    intro halways
    obtain ⟨a, ha⟩ := hc.operator halways
    have hname : (convertCrsOperator c).name = .known a := by
      rw [convertCrsOperator, halways, ha]
      rfl
    rw [hname, if_neg (by simp)]
    cases hop : c.operator with
    | mk negate name value =>
      rw [hop] at ha
      cases ha
      rw [convertCrsOperator, hop]
      rfl
  unfold convertCrsCondition
  rw [hss]
  refine ⟨_, { alwaysMatch := c.alwaysMatch, script := c.script, vars := c.vars
               collections := c.collections, transformations := ts'
               operator := if c.alwaysMatch then { name := .known .unknownOperator }
                else c.operator }, rfl, rfl, ?_, ⟨rfl, rfl, rfl, rfl, ?_, halias⟩⟩
  · unfold convertCondition
    simp only [hts', hvars, hcollections]
    cases halways : c.alwaysMatch with
    | true => rfl
    | false =>
      simp only [Bool.false_eq_true, if_false, hoperator halways]
      rfl
  · intro halways
    rw [halways]
    rfl

/-! ## Links -/

lemma mem_kinds_stored {a : SeclangActions α} (ha : a.Known lib) {needChain : Bool}
    (hchain : needChain = true ↔ chainKind ∈ a.kinds lib) (k : ActionKind) :
    (k ∈ (withoutChain (secActionToAPI lib a)).kinds ∨ needChain = true ∧ k = chainKind) ↔
      k ∈ a.kinds lib := by
  rw [mem_kinds_withoutChain (known_secActionToAPI hlib ha), mem_kinds_secActionToAPI hlib ha,
    hchain]
  constructor
  · rintro (⟨hk, _⟩ | ⟨hk, rfl⟩)
    · exact hk
    · exact hk
  · intro hk
    by_cases hkind : k = chainKind
    · exact .inr ⟨by rwa [hkind] at hk, hkind⟩
    · exact .inl ⟨hk, hkind⟩

lemma exists_matchToRuleWithCondition (m : Match) (metadata : Option SecRuleMetadata)
    {actions : SecRuleActions} (hactions : actions.Known)
    (hc : convertCondition lib m.toCondition = .ok c) (needChain : Bool) :
    ∃ b, matchToRuleWithCondition lib metadata m (some actions) needChain =
        .ok { metadata := metadata.getD {}, conditions := [c], actions := b } ∧
      (actions.disruptiveAction = none → b.disruptiveAction = none) ∧
      ∀ k, k ∈ b.kinds lib ↔ k ∈ actions.kinds ∨ needChain = true ∧ k = chainKind := by
  have hlink : ∀ a b, secActionToCSR lib a = .ok b →
      secLangSecRuleToRuleWithCondition lib
          { metadata, conditions := [m.toCondition], actions := some a } =
        .ok { metadata := metadata.getD {}, conditions := [c], actions := b } := by
    intro a b hb
    rw [secLangSecRuleToRuleWithCondition_eq_ok]
    refine ⟨rfl, ?_, hb⟩
    rw [mapM_eq_ok]
    exact .cons hc .nil
  cases needChain with
  | false =>
    obtain ⟨b, hb, hkinds, hdisruptive⟩ := exists_secActionToCSR hlib hactions
    refine ⟨b, hlink _ b hb, hdisruptive, ?_⟩
    intro k
    rw [hkinds]
    simp
  | true =>
    obtain ⟨b, hb, hkinds, hdisruptive⟩ :=
      exists_secActionToCSR hlib (known_ensureChainAction hactions)
    refine ⟨b, hlink _ b hb, ?_, ?_⟩
    · intro hnone
      apply hdisruptive
      unfold ensureChainAction
      simp only [Option.getD_some]
      split_ifs
      · exact hnone
      · exact hnone
    · intro k
      rw [hkinds, mem_kinds_ensureChainAction hactions]
      simp

end

/-- The flow action `chain` stands on each link but the last. -/
def Chained (lib : Crslang α) : List (RuleLink α) → Prop
  | [] => True
  | [link] => chainKind ∉ link.actions.kinds lib
  | link :: links => chainKind ∈ link.actions.kinds lib ∧ Chained lib links

/-- The same link: its conditions, and the set of the kinds of its actions. -/
structure SameLink (lib : Crslang α) (link link' : RuleLink α) : Prop where
  conditions : List.Forall₂ (SameCondition lib) link.conditions link'.conditions
  kinds : ∀ k, k ∈ link'.actions.kinds lib ↔ k ∈ link.actions.kinds lib

/-- A link with one condition, all of whose names and kinds are in the mapped enumerations. -/
structure RuleLink.Mapped (lib : Crslang α) (link : RuleLink α) : Prop where
  condition : ∃ c, link.conditions = [c] ∧ c.Mapped lib
  actions : link.actions.Known lib

section
variable {lib : Crslang α} {links : List (RuleLink α)}

lemma chained_cons (h : Chained lib (link :: links)) :
    (links ≠ [] ↔ chainKind ∈ link.actions.kinds lib) ∧ Chained lib links := by
  cases links with
  | nil => exact ⟨iff_of_false (by simp) h, trivial⟩
  | cons link' links => exact ⟨iff_of_true (by simp) h.1, h.2⟩

/-- The match entry of a link behind the head. -/
def linkMatch (lib : Crslang α) (link : RuleLink α) (cond : Condition) : Match :=
  { cond.toMatch with actions := some (withoutChain (secActionToAPI lib link.actions)) }

/-- The conditions of links that have one each. -/
def StoredConditions (lib : Crslang α) : List (RuleLink α) → List Condition → Prop :=
  List.Forall₂ fun link cond => ∃ c, link.conditions = [c] ∧ convertCrsCondition lib c = .ok cond

lemma convertCrsRule_singleton (hconditions : link.conditions = [c])
    (hcond : convertCrsCondition lib c = .ok cond) :
    convertCrsRule lib link "" = .ok
      ⟨some (crsMetadata link), [cond], some (secActionToAPI lib link.actions), ""⟩ := by
  rw [convertCrsRule_eq_ok]
  refine ⟨[cond], ?_, rfl⟩
  rw [hconditions, mapM_eq_ok]
  exact .cons hcond .nil

lemma walkChain_links {spec : SecRuleSpec} (hne : spec.matchLinks ≠ [])
    (h : StoredConditions lib links conds) :
    walkChain lib spec false links = .ok
      { spec with matchLinks := spec.matchLinks ++ List.zipWith (linkMatch lib) links conds } := by
  induction h generalizing spec with
  | nil => simp [walkChain]
  | @cons link cond links conds hlink _ ih =>
    obtain ⟨c, hconditions, hcond⟩ := hlink
    rw [walkChain, convertCrsRule_singleton hconditions hcond]
    simp only [Bool.false_eq_true, if_false, isEmpty_eq_false_iff.mpr hne, Bool.and_false]
    refine (ih (by simp)).trans ?_
    simp only [append_assoc, zipWith_cons_cons]
    rfl

lemma convertCrsRuleToSingleForm_links (marker : String)
    (h : StoredConditions lib r.links (cond :: conds)) :
    convertCrsRuleToSingleForm lib r marker = .ok (orderFromID {
      markerAfter := marker
      metadata := some (crsMetadata r.head)
      matchLinks := cond.toMatch :: List.zipWith (linkMatch lib) r.chain conds
      actions := some (withoutChain (secActionToAPI lib r.head.actions)) }) := by
  cases h with
  | cons hhead hchain =>
    obtain ⟨c, hconditions, hcond⟩ := hhead
    have hwalk : walkChain lib { markerAfter := marker } true (r.head :: r.chain) =
        walkChain lib { markerAfter := marker, metadata := some (crsMetadata r.head)
                        matchLinks := [cond.toMatch]
                        actions := some (withoutChain (secActionToAPI lib r.head.actions)) }
          false r.chain := by
      rw [walkChain, convertCrsRule_singleton hconditions hcond]
      change (if (r.chain.isEmpty && decide (1 < 1) && true) = true then _ else _) = _
      rw [if_neg (by simp)]
      rfl
    unfold convertCrsRuleToSingleForm RuleWithCondition.links
    rw [hwalk, walkChain_links (by simp) hchain]
    rfl

variable (hlib : lib.Documented)
include hlib

lemma exists_storedConditions (h : ∀ link ∈ links, link.Mapped lib) :
    ∃ conds, StoredConditions lib links conds := by
  induction links with
  | nil => exact ⟨[], .nil⟩
  | cons link links ih =>
    obtain ⟨conds, hconds⟩ := ih fun l hl => h l (mem_cons_of_mem _ hl)
    obtain ⟨c, hc, hmapped⟩ := (h link mem_cons_self).condition
    obtain ⟨cond, _, hcond, _⟩ := exists_condition hlib hmapped
    exact ⟨cond :: conds, .cons ⟨c, hc, hcond⟩ hconds⟩

lemma exists_convertCondition (hlink : link.Mapped lib)
    (hcond : ∃ c, link.conditions = [c] ∧ convertCrsCondition lib c = .ok cond) :
    ∃ c', convertCondition lib cond = .ok c' ∧
      List.Forall₂ (SameCondition lib) link.conditions [c'] := by
  obtain ⟨c, hc, hmapped⟩ := hlink.condition
  obtain ⟨cond', c', hcond', _, hc', hsame⟩ := exists_condition hlib hmapped
  obtain ⟨c'', hc'', hcond⟩ := hcond
  rw [hc, singleton_inj] at hc''
  rw [← hc'', hcond', Except.ok.injEq] at hcond
  rw [← hcond, hc]
  exact ⟨c', hc', .cons hsame .nil⟩

lemma exists_convertLink (spec : SecRuleSpec) {i n : ℕ} (hi : i ≠ 0) (hin : i + 1 ≤ n)
    (hlink : link.Mapped lib) (hdisruptive : link.actions.disruptiveAction = none)
    (hchain : i + 1 ≠ n ↔ chainKind ∈ link.actions.kinds lib)
    (hcond : ∃ c, link.conditions = [c] ∧ convertCrsCondition lib c = .ok cond) :
    ∃ link', convertLink lib spec (linkMatch lib link cond) i n = .ok link' ∧
      SameLink lib link link' := by
  obtain ⟨c', hc', hsame⟩ := exists_convertCondition hlib hlink hcond
  have hknown := known_withoutChain (known_secActionToAPI hlib hlink.actions)
  have hnone : (withoutChain (secActionToAPI lib link.actions)).disruptiveAction = none := by
    rw [withoutChain, secActionToAPI, hdisruptive]
    rfl
  have hactions : linkActions spec (linkMatch lib link cond) i n =
      some (withoutChain (secActionToAPI lib link.actions)) := by
    have hstrip : stripDisruptiveActions (some (withoutChain (secActionToAPI lib link.actions))) =
        some (withoutChain (secActionToAPI lib link.actions)) := by
      rw [stripDisruptiveActions, Option.map_some]
      congr 1
      rw [← hnone]
    rw [linkActions]
    simp only [linkMatch, if_neg hi]
    exact hstrip
  obtain ⟨b, hb, hdisruptive', hkinds⟩ := exists_matchToRuleWithCondition hlib
    (linkMatch lib link cond) none hknown hc' (i + 1 ≠ n ∧ 1 < n)
  have hneed : decide (i + 1 ≠ n ∧ 1 < n) = true ↔ chainKind ∈ link.actions.kinds lib := by
    rw [decide_eq_true_eq, ← hchain]
    constructor
    · exact And.left
    · intro hne
      exact ⟨hne, by omega⟩
  have hkinds' : ∀ k, k ∈ b.kinds lib ↔ k ∈ link.actions.kinds lib := by
    intro k
    rw [hkinds, mem_kinds_stored hlib hlink.actions hneed]
  let link' : RuleLink α := { metadata := {}, conditions := [c'], actions := b }
  -- What is removed from a link behind the head is not there.
  have hremove : i + 1 = n → removeChainFromFlowActions lib link' = link' := by
    intro hlast
    have hfilter : (b.flowActions.filter fun fa => lib.getKey fa != "chain") = b.flowActions := by
      rw [filter_eq_self]
      intro fa hfa
      rw [bne_iff_ne]
      intro hkey
      have hmem : chainKind ∈ b.kinds lib := by
        rw [SeclangActions.kinds]
        simp only [mem_append, mem_map]
        exact .inl (.inr ⟨fa, hfa, by rw [hkey]; rfl⟩)
      exact hchain.mpr ((hkinds' _).mp hmem) hlast
    rw [removeChainFromFlowActions, hfilter]
  have hstripped : ({ link' with actions := { b with disruptiveAction := none } } : RuleLink α) =
      link' := by
    rw [← hdisruptive' hnone]
  refine ⟨link', ?_, hsame, hkinds'⟩
  unfold convertLink
  simp only [if_neg hi, hactions]
  rw [hb]
  by_cases hlast : i + 1 = n
  · simp only [if_pos hlast]
    change Except.ok ({ removeChainFromFlowActions lib link' with
      actions := { (removeChainFromFlowActions lib link').actions with
        disruptiveAction := none } } : RuleLink α) = _
    rw [hremove hlast, hstripped]
  · simp only [if_neg hlast]
    change Except.ok ({ link' with actions := { b with disruptiveAction := none } } :
      RuleLink α) = _
    rw [hstripped]

lemma exists_convertLinks (spec : SecRuleSpec) {i n : ℕ} (hi : i ≠ 0) (hn : i + links.length = n)
    (hmapped : ∀ link ∈ links, link.Mapped lib)
    (hdisruptive : ∀ link ∈ links, link.actions.disruptiveAction = none)
    (hchained : Chained lib links) (hconds : StoredConditions lib links conds) :
    ∃ links', convertLinks lib spec n i (List.zipWith (linkMatch lib) links conds) = .ok links' ∧
      List.Forall₂ (SameLink lib) links links' := by
  induction hconds generalizing i with
  | nil => exact ⟨[], rfl, .nil⟩
  | @cons link cond links conds hcond _ ih =>
    rw [length_cons] at hn
    obtain ⟨hchain, hrest⟩ := chained_cons hchained
    have hlast : i + 1 ≠ n ↔ chainKind ∈ link.actions.kinds lib := by
      rw [← hchain, ← length_pos_iff_ne_nil]
      omega
    obtain ⟨link', hlink', hsame⟩ := exists_convertLink hlib spec hi (by omega)
      (hmapped link mem_cons_self) (hdisruptive link mem_cons_self) hlast hcond
    obtain ⟨links', hlinks', hsames⟩ := ih (i := i + 1) (by omega) (by omega)
      (fun l hl => hmapped l (mem_cons_of_mem _ hl))
      (fun l hl => hdisruptive l (mem_cons_of_mem _ hl)) hrest
    refine ⟨link' :: links', ?_, .cons hsame hsames⟩
    rw [zipWith_cons_cons, convertLinks, hlink', hlinks']
    rfl

end

/-- A rule that comes back: all names and kinds are in the mapped enumerations, `chain` stands on
each link but the last, only the head is disruptive, and an always-match rule without chain tests
nothing. -/
structure RuleWithCondition.Convertible (lib : Crslang α) (r : RuleWithCondition α) : Prop where
  links : ∀ link ∈ r.links, link.Mapped lib
  chained : Chained lib r.links
  disruptive : ∀ link ∈ r.chain, link.actions.disruptiveAction = none
  alwaysMatch : r.chain = [] → ∀ c ∈ r.head.conditions, c.alwaysMatch = true →
    c.vars = [] ∧ c.collections = [] ∧ c.script = ""

section
variable {lib : Crslang α} (hlib : lib.Documented)
include hlib

lemma exists_convertLink_head {spec : SecRuleSpec} {n : ℕ} (hlink : link.Mapped lib)
    (hactions : spec.actions = some (withoutChain (secActionToAPI lib link.actions)))
    (hchain : n ≠ 1 ↔ chainKind ∈ link.actions.kinds lib) (hn : n ≠ 0)
    (hcond : ∃ c, link.conditions = [c] ∧ convertCrsCondition lib c = .ok cond) :
    ∃ link', convertLink lib spec cond.toMatch 0 n = .ok link' ∧
      link'.metadata = spec.metadata.getD {} ∧ SameLink lib link link' := by
  obtain ⟨c', hc', hsame⟩ := exists_convertCondition hlib hlink hcond
  have hknown := known_withoutChain (known_secActionToAPI hlib hlink.actions)
  have hlinkActions : linkActions spec cond.toMatch 0 n =
      some (withoutChain (secActionToAPI lib link.actions)) := hactions
  obtain ⟨b, hb, _, hkinds⟩ := exists_matchToRuleWithCondition hlib cond.toMatch spec.metadata
    hknown hc' (0 + 1 ≠ n ∧ 1 < n)
  have hneed : decide (0 + 1 ≠ n ∧ 1 < n) = true ↔ chainKind ∈ link.actions.kinds lib := by
    rw [decide_eq_true_eq, ← hchain]
    omega
  refine ⟨{ metadata := spec.metadata.getD {}, conditions := [c'], actions := b }, ?_, rfl, hsame,
    ?_⟩
  · rw [convertLink_zero_eq_ok, hlinkActions]
    exact hb
  · intro k
    rw [hkinds, mem_kinds_stored hlib hlink.actions hneed]

lemma exists_alwaysMatch (metadata : Option SecRuleMetadata) (hlink : link.Mapped lib)
    (halways : cond.alwaysMatch = true)
    (hempty : ∀ c ∈ link.conditions, c.alwaysMatch = true →
      c.vars = [] ∧ c.collections = [] ∧ c.script = "")
    (hchain : chainKind ∉ link.actions.kinds lib)
    (hcond : ∃ c, link.conditions = [c] ∧ convertCrsCondition lib c = .ok cond) :
    ∃ link', alwaysMatchToRuleWithCondition lib metadata cond.toMatch
        (some (withoutChain (secActionToAPI lib link.actions))) = .ok link' ∧
      link'.metadata = metadata.getD {} ∧ SameLink lib link link' := by
  obtain ⟨c', hc', hsame⟩ := exists_convertCondition hlib hlink hcond
  obtain ⟨c, hconditions, hcond⟩ := hcond
  obtain ⟨hsameAlways, _, _, _⟩ := convertCrsCondition_eq_ok hcond
  rw [halways] at hsameAlways
  obtain ⟨hvars, hcollections, hscript⟩ := hempty c (by rw [hconditions]; simp) hsameAlways.symm
  have hknown := known_withoutChain (known_secActionToAPI hlib hlink.actions)
  obtain ⟨b, hb, hkinds, _⟩ := exists_secActionToCSR hlib hknown
  obtain ⟨ts, hts, hc'⟩ := bind_eq_ok.mp hc'
  have hc'' := pure_eq_ok.mp hc'
  have hsame' : SameCondition lib c c' := by
    rw [hconditions, forall₂_cons] at hsame
    exact hsame.1
  refine ⟨{ metadata := metadata.getD {}
            conditions := [{ alwaysMatch := true, operator := { name := .known .unknownOperator }
                             transformations := ts }]
            actions := b }, ?_, rfl, ?_, ?_⟩
  · unfold alwaysMatchToRuleWithCondition convertActions
    rw [show cond.toMatch.transformations = cond.transformations from rfl, hts]
    simp only [hb]
    rfl
  · rw [hconditions]
    refine .cons ⟨hvars.symm, hcollections.symm, hscript.symm, hsameAlways, ?_, ?_⟩ .nil
    · intro hfalse
      rw [← hsameAlways] at hfalse
      exact absurd hfalse (by decide)
    · rw [← hc''] at hsame'
      exact hsame'.transformations
  · intro k
    have hneed : false = true ↔ chainKind ∈ link.actions.kinds lib :=
      iff_of_false (by decide) hchain
    rw [hkinds, ← mem_kinds_stored hlib hlink.actions hneed]
    simp

lemma exists_builtFrom (hr : r.Convertible lib)
    (hconds : StoredConditions lib r.links (cond :: conds)) {source : SecRule} {marker : String}
    (hspec : convertCrsRuleToSingleForm lib r marker = .ok source.spec) :
    ∃ r', convertSingleRuleForm lib source = .ok (.rule r' :: markerDirectives marker) ∧
      r'.head.metadata = crsMetadata r.head ∧ List.Forall₂ (SameLink lib) r.links r'.links := by
  have hsingle := convertCrsRuleToSingleForm_links marker hconds
  rw [hspec, Except.ok.injEq] at hsingle
  have hmarker : source.spec.markerAfter = marker := by rw [hsingle, orderFromID_markerAfter]
  have hmetadata : source.spec.metadata = some (crsMetadata r.head) := by
    rw [hsingle, orderFromID_metadata]
  have hmatches : source.spec.matchLinks =
      cond.toMatch :: List.zipWith (linkMatch lib) r.chain conds := by
    rw [hsingle, orderFromID_matchLinks]
  have hactions : source.spec.actions =
      some (withoutChain (secActionToAPI lib r.head.actions)) := by
    rw [hsingle, orderFromID_actions]
  obtain ⟨hchain, hrest⟩ := chained_cons hr.chained
  have hhead := hr.links r.head mem_cons_self
  cases hconds with
  | cons hcond hconds =>
    unfold convertSingleRuleForm
    rw [hmatches, hmarker]
    simp only [isEmpty_cons, Bool.false_eq_true, if_false]
    by_cases hpure : r.chain = [] ∧ cond.alwaysMatch = true
    · obtain ⟨hnil, halways⟩ := hpure
      have hp : pureAlwaysMatch (cond.toMatch :: List.zipWith (linkMatch lib) r.chain conds) =
          some cond.toMatch := by
        rw [pureAlwaysMatch_eq_some, hnil]
        exact ⟨rfl, halways⟩
      obtain ⟨link', hlink', hmeta, hsame⟩ := exists_alwaysMatch hlib
        source.spec.metadata hhead halways (hr.alwaysMatch hnil)
        (by rw [← hchain]; simpa using hnil) hcond
      refine ⟨{ head := link' }, ?_, by rw [hmeta, hmetadata]; rfl, ?_⟩
      · have hnone : cond.toMatch.actions.isSome = false := rfl
        simp only [hp, hactions, hnone, Bool.false_eq_true, if_false]
        rw [hlink']
        rfl
      · rw [RuleWithCondition.links, hnil]
        exact .cons hsame .nil
    · have hp : pureAlwaysMatch (cond.toMatch :: List.zipWith (linkMatch lib) r.chain conds) =
          none := by
        rw [Option.eq_none_iff_forall_ne_some]
        intro m hm
        obtain ⟨heq, halways⟩ := pureAlwaysMatch_eq_some.mp hm
        rw [List.cons.injEq] at heq
        have hlength := congrArg List.length heq.2
        rw [length_zipWith, ← hconds.length_eq, Nat.min_self, length_nil,
          length_eq_zero_iff] at hlength
        exact hpure ⟨hlength, by rw [← heq.1] at halways; exact halways⟩
      have hn : (cond.toMatch :: List.zipWith (linkMatch lib) r.chain conds).length =
          1 + r.chain.length := by
        rw [length_cons, length_zipWith, ← hconds.length_eq, Nat.min_self, Nat.add_comm]
      have hlast : 1 + r.chain.length ≠ 1 ↔ chainKind ∈ r.head.actions.kinds lib := by
        rw [← hchain, ← length_pos_iff_ne_nil]
        omega
      obtain ⟨head, hhead', hmeta, hsame⟩ := exists_convertLink_head hlib hhead hactions hlast
        (by omega) hcond
      obtain ⟨chain, hchain', hsames⟩ := exists_convertLinks hlib source.spec
        (i := 1) (by omega) rfl (fun l hl => hr.links l (mem_cons_of_mem _ hl))
        hr.disruptive hrest hconds
      refine ⟨{ head, chain }, ?_, by rw [hmeta, hmetadata]; rfl, .cons hsame hsames⟩
      simp only [hp, hn]
      rw [convertLinks, hhead', hchain']
      rfl

end

/-- A rule of crslang that is stored in the single-rule form and converted back is the same rule,
link by link, with its marker behind it. -/
theorem convertSecRule_convertCrsRuleToSingleForm (lib : Crslang α) (hlib : lib.Documented)
    (r : RuleWithCondition α) (hr : r.Convertible lib) (marker : String) :
    ∃ spec, convertCrsRuleToSingleForm lib r marker = .ok spec ∧
      ∀ source : SecRule, source.spec = spec →
        ∃ r', convertSecRule lib source = .ok (.rule r' :: markerDirectives marker) ∧
          r'.head.metadata = { r.head.metadata with
            comment := sanitizeRuleComment r.head.metadata.comment } ∧
          List.Forall₂ (SameLink lib) r.links r'.links := by
  obtain ⟨conds, hconds⟩ := exists_storedConditions hlib hr.links
  cases conds with
  | nil => cases hconds
  | cons cond conds =>
    refine ⟨_, convertCrsRuleToSingleForm_links marker hconds, ?_⟩
    intro source hsource
    have hspec : convertCrsRuleToSingleForm lib r marker = .ok source.spec := by
      rw [hsource]
      exact convertCrsRuleToSingleForm_links marker hconds
    have hmetadata : source.spec.metadata.isSome = true := by
      rw [hsource, orderFromID_metadata]
      rfl
    obtain ⟨r', hconvert, hhead, hlinks⟩ := exists_builtFrom hlib hr hconds hspec
    refine ⟨r', ?_, hhead, hlinks⟩
    rw [convertSecRule, SecRuleSpec.isSingleRuleForm, hmetadata]
    exact hconvert

end

/-! ## A chain, and an always-match rule -/

/-- A blocking rule that goes on in a second link. -/
def blockingChain : RuleWithCondition PlainAction where
  head :=
    { metadata := { id := 942130, phase := "2", comment := "SQL injection" }
      conditions := [{ collections := [⟨.known .ARGS, [], [], false⟩]
                       operator := { name := .known .rx, value := "select" }
                       transformations := [.known .lowercase, .extra 0] }]
      actions := { disruptiveAction := some { key := "deny" }, flowActions := [{ key := "chain" }]
                   nonDisruptiveActions := [{ key := "capture" }] } }
  chain :=
    [{ conditions := [{ vars := [⟨.known .REQUEST_URI, false⟩]
                        operator := { name := .known .rx, value := "union" } }]
       actions := { nonDisruptiveActions := [{ key := "logdata", param := some "found" }] } }]

lemma blockingChain_convertible : blockingChain.Convertible plainCrslang where
  links link hlink := by
    rw [RuleWithCondition.links, mem_cons] at hlink
    rcases hlink with rfl | hlink
    · refine ⟨⟨_, rfl, ?_⟩, ?_⟩
      · refine ⟨by simp, ?_, fun _ => ⟨.rx, rfl⟩, ?_⟩
        · intro v hv
          rw [mem_singleton] at hv
          exact ⟨.ARGS, by rw [hv]⟩
        · intro t ht
          simp only [mem_cons, not_mem_nil, or_false] at ht
          rcases ht with rfl | rfl
          · exact .inl ⟨.lowercase, rfl, by decide⟩
          · exact .inr (by decide)
      · refine ⟨by simp [blockingChain], ?_, ?_, ?_, fun _ _ _ h => by cases h⟩
        · intro x hx
          cases hx
          exact ⟨.deny, rfl⟩
        · intro x hx
          rw [mem_singleton.mp hx]
          exact ⟨.chain, rfl, by decide⟩
        · intro x hx
          rw [mem_singleton.mp hx]
          exact ⟨.capture, rfl⟩
    · rw [mem_singleton.mp hlink]
      refine ⟨⟨_, rfl, ?_⟩, ?_⟩
      · refine ⟨?_, by simp, fun _ => ⟨.rx, rfl⟩, by simp⟩
        intro v hv
        rw [mem_singleton] at hv
        exact ⟨.REQUEST_URI, by rw [hv]⟩
      · refine ⟨by simp, by simp, by simp, ?_, fun _ _ _ h => by cases h⟩
        intro x hx
        rw [mem_singleton.mp hx]
        exact ⟨.logData, rfl⟩
  chained := by
    have hhead : chainKind ∈ blockingChain.head.actions.kinds plainCrslang := by decide
    have hchain : ∀ link ∈ blockingChain.chain,
        chainKind ∉ link.actions.kinds plainCrslang := by decide
    exact ⟨hhead, hchain _ mem_cons_self⟩
  disruptive link hlink := by rw [mem_singleton.mp hlink]
  alwaysMatch h := absurd h (by decide)

theorem convertSecRule_blockingChain :
    ∃ spec, convertCrsRuleToSingleForm plainCrslang blockingChain "END-SQLI" = .ok spec ∧
      ∀ source : SecRule, source.spec = spec →
        ∃ r', convertSecRule plainCrslang source =
            .ok (.rule r' :: markerDirectives "END-SQLI") ∧
          r'.head.metadata = { blockingChain.head.metadata with
            comment := sanitizeRuleComment blockingChain.head.metadata.comment } ∧
          List.Forall₂ (SameLink plainCrslang) blockingChain.links r'.links :=
  convertSecRule_convertCrsRuleToSingleForm plainCrslang plainCrslang_documented blockingChain
    blockingChain_convertible "END-SQLI"

/-- An always-match rule that names a variable. -/
def alwaysMatchRule : RuleWithCondition PlainAction where
  head :=
    { metadata := { id := 901200, phase := "1" }
      conditions := [{ alwaysMatch := true, vars := [⟨.known .REQUEST_URI, false⟩]
                       operator := { name := .known .unconditionalMatch } }] }

/-- All its names are in the mapped enumerations, and it comes back without its variable: it is
written as a `SecAction`. -/
theorem alwaysMatchRule_loses_variable :
    (∀ c ∈ alwaysMatchRule.head.conditions, c.Mapped plainCrslang) ∧
      alwaysMatchRule.head.conditions.length = 1 ∧
      Chained plainCrslang alwaysMatchRule.links ∧
      (convertCrsRuleToSingleForm plainCrslang alwaysMatchRule "" >>= fun spec =>
        convertSecRule plainCrslang { spec }) =
        .ok [.rule { head :=
          { metadata := { id := 901200, phase := "1" }
            conditions := [{ alwaysMatch := true
                             operator := { name := .known .unknownOperator } }] } }] ∧
      ¬∃ c ∈ alwaysMatchRule.head.conditions, SameCondition plainCrslang c
        { alwaysMatch := true, operator := { name := .known .unknownOperator } } := by
  refine ⟨?_, rfl, ?_, by decide, ?_⟩
  · intro c hc
    rw [mem_singleton.mp hc]
    refine ⟨?_, by simp, fun h => absurd h (by decide), by simp⟩
    intro v hv
    rw [mem_singleton] at hv
    exact ⟨.REQUEST_URI, by rw [hv]⟩
  · have hhead : chainKind ∉ alwaysMatchRule.head.actions.kinds plainCrslang := by decide
    exact hhead
  · rintro ⟨c, hc, hsame⟩
    have hvars := hsame.vars
    rw [mem_singleton.mp hc] at hvars
    exact absurd hvars (by decide)

end KubeWaf.Seclang
