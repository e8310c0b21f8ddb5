import KubeWaf.Seclang.ConvertShape

/-!
# Where the disruptive action of a rule ends up

`spec.actions.disruptive` of a rule in the single-rule form is converted onto the chain
starter, and every later link is stripped. The exception is a first match entry that has
actions of its own: then `spec.actions` is not consulted for that link at all.
-/

namespace KubeWaf.Seclang

open Lib

section
variable {α : Type} {lib : Crslang α} {link : RuleLink α} {spec : SecRuleSpec}
  {actions : Option SecRuleActions} {t : SeclangActions α} {m : Match}

/-! ## Conversion of the disruptive action -/

/-- The disruptive action in an optional action record. -/
def disruptiveOf (actions : Option SecRuleActions) : Option DisruptiveAction :=
  actions.bind (·.disruptiveAction)

/-- `b` is the conversion of the optional disruptive action `d`. -/
def DisruptiveConverted (lib : Crslang α) (d : Option DisruptiveAction) (b : Option α) : Prop :=
  d.mapM (disruptiveActionToCSR lib) = .ok b

lemma secActionToCSR_disruptive {a : SecRuleActions} (h : secActionToCSR lib a = .ok t) :
    DisruptiveConverted lib a.disruptiveAction t.disruptiveAction := by
  unfold secActionToCSR at h
  obtain ⟨data, -, h⟩ := bind_eq_ok.mp h
  obtain ⟨disruptive, hd, h⟩ := bind_eq_ok.mp h
  obtain ⟨flow, -, h⟩ := bind_eq_ok.mp h
  obtain ⟨nonDisruptive, -, h⟩ := bind_eq_ok.mp h
  rw [← pure_eq_ok.mp h]
  exact hd

lemma convertActions_disruptive (h : convertActions lib actions = .ok t) :
    DisruptiveConverted lib (disruptiveOf actions) t.disruptiveAction := by
  cases actions with
  | none =>
    cases h
    rfl
  | some a => exact secActionToCSR_disruptive h

lemma disruptiveConverted_none {b : Option α} (h : DisruptiveConverted lib none b) :
    b = none := by
  rcases option_mapM_eq_ok.mp h with ⟨-, hb⟩ | ⟨d, c, hd, -⟩
  · exact hb
  · cases hd

lemma disruptiveConverted_some {d : DisruptiveAction} {b : Option α}
    (h : DisruptiveConverted lib (some d) b) :
    ∃ a, disruptiveActionToCSR lib d = .ok a ∧ b = some a := by
  rcases option_mapM_eq_ok.mp h with ⟨hd, -⟩ | ⟨d', a, hd, ha, hb⟩
  · cases hd
  · cases hd
    exact ⟨a, ha, hb⟩

/-! ## The steps of the conversion keep track of it -/

@[simp] lemma ensureChainAction_disruptive (actions : Option SecRuleActions) :
    (ensureChainAction actions).disruptiveAction = disruptiveOf actions := by
  unfold ensureChainAction disruptiveOf
  cases actions with
  | none => rfl
  | some a =>
    simp only [Option.getD_some, Option.bind_some]
    split <;> rfl

lemma secLangSecRuleToRuleWithCondition_disruptive {secRule : SecLangSecRule}
    (h : secLangSecRuleToRuleWithCondition lib secRule = .ok link) :
    DisruptiveConverted lib (disruptiveOf secRule.actions) link.actions.disruptiveAction := by
  unfold secLangSecRuleToRuleWithCondition at h
  obtain ⟨conditions, -, h⟩ := bind_eq_ok.mp h
  obtain ⟨actions, ha, h⟩ := bind_eq_ok.mp h
  rw [← pure_eq_ok.mp h]
  exact convertActions_disruptive ha

lemma matchToRuleWithCondition_disruptive {metadata : Option SecRuleMetadata} {needChain : Bool}
    (h : matchToRuleWithCondition lib metadata m actions needChain = .ok link) :
    DisruptiveConverted lib (disruptiveOf actions) link.actions.disruptiveAction := by
  have hd := secLangSecRuleToRuleWithCondition_disruptive h
  cases needChain with
  | false => exact hd
  | true => simpa [disruptiveOf] using hd

lemma convertLink_zero_disruptive {n : ℕ} (h : convertLink lib spec m 0 n = .ok link) :
    DisruptiveConverted lib (disruptiveOf (m.actions.or spec.actions))
      link.actions.disruptiveAction := by
  obtain ⟨link', hl, h⟩ := bind_eq_ok.mp h
  rw [if_pos rfl] at h
  cases pure_eq_ok.mp h
  have hactions : linkActions spec m 0 n = m.actions.or spec.actions := by
    unfold linkActions
    cases m.actions <;> simp
  rw [← hactions]
  exact matchToRuleWithCondition_disruptive hl

lemma convertLink_succ_disruptive {i n : ℕ} (h : convertLink lib spec m (i + 1) n = .ok link) :
    link.actions.disruptiveAction = none := by
  obtain ⟨link', -, h⟩ := bind_eq_ok.mp h
  rw [if_neg (Nat.succ_ne_zero i)] at h
  rw [← pure_eq_ok.mp h]

lemma convertLinks_succ_disruptive {n i : ℕ} {ms : List Match} {links : List (RuleLink α)}
    (h : convertLinks lib spec n (i + 1) ms = .ok links) :
    ∀ link ∈ links, link.actions.disruptiveAction = none := by
  induction ms generalizing i links with
  | nil =>
    cases h
    simp
  | cons m ms ih =>
    obtain ⟨link, hlink, h⟩ := bind_eq_ok.mp h
    obtain ⟨rest, hrest, h⟩ := bind_eq_ok.mp h
    rw [← pure_eq_ok.mp h]
    intro l hl
    rcases List.mem_cons.mp hl with rfl | hl
    · exact convertLink_succ_disruptive hlink
    · exact ih hrest l hl

/-! ## The emitted rule -/

/-- The emitted directives are one rule and at most a marker; the first link carries the
conversion of `d` and no later link carries a disruptive action. -/
def BlockingKept (lib : Crslang α) (d : DisruptiveAction) (marker : String)
    (out : List (SeclangDirective α)) : Prop :=
  ∃ r a, out = .rule r :: markerDirectives marker ∧ disruptiveActionToCSR lib d = .ok a ∧
    r.head.actions.disruptiveAction = some a ∧
    ∀ link ∈ r.chain, link.actions.disruptiveAction = none

lemma convertSingleRuleForm_disruptive {source : SecRule}
    {out : List (SeclangDirective α)} (h : convertSingleRuleForm lib source = .ok out) :
    ∃ r, out = .rule r :: markerDirectives source.spec.markerAfter ∧
      DisruptiveConverted lib
        (disruptiveOf ((source.spec.matchLinks.head?.bind (·.actions)).or source.spec.actions))
        r.head.actions.disruptiveAction ∧
      ∀ link ∈ r.chain, link.actions.disruptiveAction = none := by
  obtain ⟨r, hout, hbuilt⟩ := convertSingleRuleForm_builtFrom h
  refine ⟨r, hout, ?_⟩
  -- the synthetic entry has no actions, as the missing head has none
  have hhead : (effectiveMatches source.spec).head?.bind (·.actions) =
      source.spec.matchLinks.head?.bind (·.actions) := by
    unfold effectiveMatches
    cases source.spec.matchLinks <;> rfl
  rw [← hhead]
  generalize effectiveMatches source.spec = ms at hbuilt
  cases hbuilt with
  | @alwaysMatch m link hm hlink =>
    refine ⟨?_, by simp⟩
    obtain ⟨ts, -, hlink⟩ := bind_eq_ok.mp hlink
    obtain ⟨actions, ha, hlink⟩ := bind_eq_ok.mp hlink
    rw [← pure_eq_ok.mp hlink]
    have hd := convertActions_disruptive ha
    cases hma : m.actions with
    | none => simpa [hma] using hd
    | some a => simpa [hma] using hd
  | chain hm hfirst hchain =>
    exact ⟨convertLink_zero_disruptive hfirst, convertLinks_succ_disruptive hchain⟩

/-- A rule in the single-rule form keeps the disruptive action `d` of `spec.actions` on its
chain starter exactly when the first match entry has no actions of its own. -/
theorem convertSecRule_blockingKept_iff {source : SecRule} {actions : SecRuleActions}
    {d : DisruptiveAction} {out : List (SeclangDirective α)}
    (hform : source.spec.isSingleRuleForm = true)
    (hspec : source.spec.actions = some actions) (hd : actions.disruptiveAction = some d)
    (hlinks : ∀ m ∈ source.spec.matchLinks, disruptiveOf m.actions = none)
    (hout : convertSecRule lib source = .ok out) :
    BlockingKept lib d source.spec.markerAfter out ↔
      source.spec.matchLinks.head?.bind (·.actions) = none := by
  rw [convertSecRule, if_pos hform] at hout
  obtain ⟨r, rfl, hhead, hchain⟩ := convertSingleRuleForm_disruptive hout
  constructor
  · rintro ⟨r', a, hr, ha, hra, -⟩
    -- own actions of the first entry would have been used, and they have no disruptive action
    by_contra hne
    obtain ⟨own, hown⟩ := Option.ne_none_iff_exists'.mp hne
    obtain ⟨m, hm, hma⟩ := Option.bind_eq_some_iff.mp hown
    have hnone := hlinks m (List.mem_of_head? hm)
    rw [hma] at hnone
    rw [hown, Option.some_or, hnone] at hhead
    have hrr : r = r' := by simpa using List.head_eq_of_cons_eq hr
    rw [← hrr, disruptiveConverted_none hhead] at hra
    cases hra
  · intro hnone
    rw [hnone, Option.none_or, hspec, disruptiveOf, Option.bind_some, hd] at hhead
    obtain ⟨a, ha, hra⟩ := disruptiveConverted_some hhead
    exact ⟨r, a, rfl, ha, hra, hchain⟩

end

/-- A denying rule with one match entry, whose actions are `own`. -/
def denyRule (own : Option SecRuleActions) : SecRule where
  name := "deny-rule"
  spec :=
    { metadata := some { id := 100001, phase := "2" }
      matchLinks := [{ vars := [{ name := .known .REQUEST_URI, excluded := false }]
                       operator := { name := .known .rx, value := "attack" }
                       actions := own }]
      actions := some { disruptiveAction := some { type := .known .deny, value := "" } } }

/-- The link `denyRule` converts to, with the actions it carries. -/
def denyLink (actions : SeclangActions PlainAction) : RuleLink PlainAction where
  metadata := { id := 100001, phase := "2" }
  conditions := [{ vars := [{ name := .known .REQUEST_URI, excluded := false }]
                   operator := { name := .known .rx, value := "attack" } }]
  actions := actions

theorem convertSecRule_denyRule_blockingKept :
    convertSecRule plainCrslang (denyRule none)
        = .ok [.rule { head := denyLink { disruptiveAction := some { key := "deny" } } }] ∧
      BlockingKept plainCrslang { type := .known .deny, value := "" } ""
        [.rule { head := denyLink { disruptiveAction := some { key := "deny" } } }] := by
  have hconv : convertSecRule plainCrslang (denyRule none)
      = .ok [.rule { head := denyLink { disruptiveAction := some { key := "deny" } } }] := by
    decide
  refine ⟨hconv, ?_⟩
  exact (convertSecRule_blockingKept_iff (by decide) rfl rfl (by decide) hconv).mpr rfl

/-- A first match entry with a `capture` of its own: the rule is emitted without `deny`. -/
theorem convertSecRule_denyRule_blocking_lost :
    ∃ source actions d, ∃ out : List (SeclangDirective PlainAction),
      source.spec.isSingleRuleForm = true ∧ source.spec.actions = some actions ∧
      actions.disruptiveAction = some d ∧
      (∀ m ∈ source.spec.matchLinks, disruptiveOf m.actions = none) ∧
      convertSecRule plainCrslang source = .ok out ∧
      ¬ BlockingKept plainCrslang d source.spec.markerAfter out := by
  let own : SecRuleActions := { nonDisruptive := [{ type := .known .capture, value := "" }] }
  refine ⟨denyRule (some own),
    { disruptiveAction := some { type := .known .deny, value := "" } },
    { type := .known .deny, value := "" },
    [.rule { head := denyLink { nonDisruptiveActions := [{ key := "capture" }] } }],
    by decide, rfl, rfl, by decide, by decide, ?_⟩
  rintro ⟨r, a, hr, -, hra, -⟩
  have hhead : r = { head := denyLink { nonDisruptiveActions := [{ key := "capture" }] } } := by
    simpa using (List.cons.inj hr).1.symm
  rw [hhead] at hra
  cases hra

end KubeWaf.Seclang
