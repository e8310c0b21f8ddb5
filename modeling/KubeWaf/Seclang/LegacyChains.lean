import KubeWaf.Seclang.Chains

/-!
# Chains in the legacy bag

`convertLegacySecLangRules` cuts the bag into chains along the flow actions `chain`. It takes that
action off every entry it has chained, the inner ones included, keeps their disruptive actions, and
emits one of the markers of a chain: that of its last entry, or else that of its first.
-/

namespace KubeWaf.Seclang

open Lib List

variable {e : SecLangSecRule} {c : List SecLangSecRule}

section
variable {α : Type}

/-- A rule that is emitted, with the markers behind it. -/
abbrev Block (α : Type) := RuleWithCondition α × List String

def Block.directives (b : Block α) : List (SeclangDirective α) :=
  .rule b.1 :: b.2.map .secMarker

/-- What a chain of the bag should be converted into: a rule with a link for each entry, chained up
to the last one and disruptive on the first only, and the markers of the entries. -/
structure ChainKept (lib : Crslang α) (c : List SecLangSecRule) (b : Block α) : Prop where
  conditions : List.Forall₂ (fun e link =>
    e.conditions.mapM (convertCondition lib) = .ok link.conditions) c b.1.links
  chain : IsChain (carriesChain lib) b.1.links
  disruptive : ∀ link ∈ b.1.chain, link.actions.disruptiveAction = none
  markers : ∀ name, name ∈ b.2 ↔ name ≠ "" ∧ ∃ e ∈ c, e.secMarker = name

/-- The bag is converted chain by chain. -/
def BagKept (lib : Crslang α) (cs : List (List SecLangSecRule)) (markerAfter : String)
    (out : List (SeclangDirective α)) : Prop :=
  ∃ blocks : List (Block α), out = blocks.flatMap Block.directives ++ markerDirectives markerAfter ∧
    List.Forall₂ (ChainKept lib) cs blocks

/-- A chain of at most two entries, of which the second is not disruptive and the markers agree. -/
structure SimpleChain (c : List SecLangSecRule) : Prop where
  length : c.length ≤ 2
  disruptive : ∀ e ∈ c.tail, disruptiveOf e.actions = none
  markers : ∀ e ∈ c, ∀ e' ∈ c, e.secMarker ≠ "" → e'.secMarker ≠ "" → e.secMarker = e'.secMarker

variable {lib : Crslang α} {b : Block α} {es : List SecLangSecRule}

/-! ## What the loops produce -/

/-- The marker that is emitted for a chain. -/
def chainMarker (first : SecLangSecRule) (last : String) : String :=
  if last = "" then first.secMarker else last

def markerNames (marker : String) : List String := if marker = "" then [] else [marker]

lemma markerDirectives_eq (marker : String) :
    (markerDirectives marker : List (SeclangDirective α)) = (markerNames marker).map .secMarker := by
  unfold markerDirectives markerNames
  split_ifs <;> rfl

def lastMarker : SecLangSecRule → List SecLangSecRule → String
  | e, [] => e.secMarker
  | _, e :: es => lastMarker e es

/-- What a link is that the inner loop has chained. -/
def ChainedLink (lib : Crslang α) (e : SecLangSecRule) (link : RuleLink α) : Prop :=
  ∃ raw, secLangSecRuleToRuleWithCondition lib e = .ok raw ∧ link = removeChainFromFlowActions lib raw

/-- What the loops make of a chain. -/
def ConvertedChain (lib : Crslang α) (c : List SecLangSecRule) (b : Block α) : Prop :=
  ∃ e es, c = e :: es ∧ secLangSecRuleToRuleWithCondition lib e = .ok b.1.head ∧
    List.Forall₂ (ChainedLink lib) es b.1.chain ∧ b.2 = markerNames (chainMarker e (lastMarker e es))

lemma consumeChain_eq_ok {rest rest' : List SecLangSecRule} {links : List (RuleLink α)}
    {marker : String} (hc : IsChain hasChainInFlow (e :: es))
    (h : consumeChain lib e (es ++ rest) = .ok (links, marker, rest')) :
    List.Forall₂ (ChainedLink lib) es links ∧ marker = lastMarker e es ∧ rest' = rest := by
  induction es generalizing e links marker rest' with
  | nil =>
    have hlast : hasChainInFlow e = false := hc
    have hstop : consumeChain lib e rest = .ok ([], e.secMarker, rest) := by
      cases rest with
      | nil => rfl
      | cons next rest => rw [consumeChain, hlast, if_neg (by decide)]
    rw [nil_append, hstop, Except.ok.injEq, Prod.mk.injEq, Prod.mk.injEq] at h
    obtain ⟨rfl, rfl, rfl⟩ := h
    exact ⟨.nil, rfl, rfl⟩
  | cons next es ih =>
    rw [cons_append, consumeChain, if_pos hc.1] at h
    obtain ⟨raw, hraw, h⟩ := bind_eq_ok.mp h
    obtain ⟨⟨links', marker', rest''⟩, hrest, h⟩ := bind_eq_ok.mp h
    obtain ⟨hlinks, hmarker, hleft⟩ := ih hc.2 hrest
    have heq := pure_eq_ok.mp h
    simp only [Prod.mk.injEq] at heq
    obtain ⟨rfl, rfl, rfl⟩ := heq
    exact ⟨.cons ⟨raw, hraw, rfl⟩ hlinks, hmarker, hleft⟩

lemma convertBag_eq_ok {cs : List (List SecLangSecRule)} {n : ℕ}
    {out : List (SeclangDirective α)} (hcs : ∀ c ∈ cs, IsChain hasChainInFlow c)
    (hn : cs.flatten.length ≤ n) (h : convertBag lib n cs.flatten = .ok out) :
    ∃ blocks, out = blocks.flatMap Block.directives ∧
      List.Forall₂ (ConvertedChain lib) cs blocks := by
  induction cs generalizing n out with
  | nil =>
    have hnil : out = [] := by
      cases n <;> exact (Except.ok.inj h).symm
    exact ⟨[], hnil, .nil⟩
  | cons c cs ih =>
    have hc := hcs c mem_cons_self
    obtain ⟨e, es, rfl⟩ := exists_cons_of_ne_nil hc.ne_nil
    rw [flatten_cons, cons_append] at h
    rw [flatten_cons, length_append, length_cons] at hn
    obtain ⟨n, rfl⟩ : ∃ n', n = n' + 1 := ⟨n - 1, by omega⟩
    rw [convertBag] at h
    obtain ⟨head, hhead, h⟩ := bind_eq_ok.mp h
    obtain ⟨⟨chain, marker, rest⟩, hconsume, h⟩ := bind_eq_ok.mp h
    obtain ⟨hlinks, hmarker, rfl⟩ := consumeChain_eq_ok hc hconsume
    obtain ⟨more, hmore, h⟩ := bind_eq_ok.mp h
    obtain ⟨blocks, rfl, hblocks⟩ :=
      ih (fun c' hc' => hcs c' (mem_cons_of_mem _ hc')) (by omega) hmore
    refine ⟨(⟨head, chain⟩, markerNames (chainMarker e (lastMarker e es))) :: blocks, ?_, ?_⟩
    · rw [← pure_eq_ok.mp h, flatMap_cons, Block.directives, hmarker]
      simp only [markerDirectives_eq]
      rfl
    · exact .cons ⟨e, es, rfl, hhead, hlinks, rfl⟩ hblocks

/-! ## Which chains are kept -/

lemma disruptiveAction_eq_none_iff {link : RuleLink α}
    (h : secLangSecRuleToRuleWithCondition lib e = .ok link) :
    link.actions.disruptiveAction = none ↔ disruptiveOf e.actions = none := by
  have hd := secLangSecRuleToRuleWithCondition_disruptive h
  cases hopt : disruptiveOf e.actions with
  | none =>
    rw [hopt] at hd
    exact iff_of_true (disruptiveConverted_none hd) rfl
  | some d =>
    rw [hopt] at hd
    obtain ⟨a, _, ha⟩ := disruptiveConverted_some hd
    rw [ha]
    simp

lemma carriesChain_eq_hasChainInFlow (hlib : lib.FlowKeys) {link : RuleLink α}
    (h : secLangSecRuleToRuleWithCondition lib e = .ok link) :
    carriesChain lib link = hasChainInFlow e := by
  rw [carriesChain_of_convertActions hlib (secLangSecRuleToRuleWithCondition_eq_ok.mp h).2.2]
  unfold hasChain hasChainInFlow
  cases e.actions <;> rfl

lemma isChain_links_iff (hlib : lib.FlowKeys) (hc : IsChain hasChainInFlow c)
    (h : ConvertedChain lib c b) : IsChain (carriesChain lib) b.1.links ↔ c.length ≤ 2 := by
  obtain ⟨e, es, rfl, hhead, hchain, _⟩ := h
  have hfirst := carriesChain_eq_hasChainInFlow hlib hhead
  rw [RuleWithCondition.links]
  generalize b.1.chain = chain at hchain ⊢
  cases hchain with
  | nil =>
    refine iff_of_true ?_ (by simp)
    show carriesChain lib b.1.head = false
    rw [hfirst]
    exact hc
  | @cons _ link _ _ hone hrest =>
    obtain ⟨raw, _, hlink⟩ := hone
    cases hrest with
    | nil =>
      refine iff_of_true ⟨by rw [hfirst]; exact hc.1, ?_⟩ (by simp)
      show carriesChain lib link = false
      rw [hlink]
      exact carriesChain_removeChain raw
    | cons _ _ =>
      refine iff_of_false ?_ (by simp)
      rintro ⟨_, hsecond, _⟩
      rw [hlink, carriesChain_removeChain raw] at hsecond
      exact absurd hsecond (by decide)

lemma disruptive_chain_iff (h : ConvertedChain lib c b) :
    (∀ link ∈ b.1.chain, link.actions.disruptiveAction = none) ↔
      ∀ e ∈ c.tail, disruptiveOf e.actions = none := by
  obtain ⟨e, es, rfl, _, hchain, hmarkers⟩ := h
  clear hmarkers
  rw [tail_cons]
  generalize b.1.chain = links at hchain
  induction hchain with
  | nil => simp
  | cons hlink _ ih =>
    obtain ⟨raw, hraw, rfl⟩ := hlink
    rw [forall_mem_cons, forall_mem_cons, ih, ← disruptiveAction_eq_none_iff hraw]
    rfl

lemma conditions_links (h : ConvertedChain lib c b) :
    List.Forall₂ (fun e link => e.conditions.mapM (convertCondition lib) = .ok link.conditions)
      c b.1.links := by
  obtain ⟨e, es, rfl, hhead, hchain, _⟩ := h
  refine .cons (secLangSecRuleToRuleWithCondition_eq_ok.mp hhead).2.1 (hchain.imp ?_)
  rintro e' link ⟨raw, hraw, rfl⟩
  exact (secLangSecRuleToRuleWithCondition_eq_ok.mp hraw).2.1

lemma mem_markerNames {name marker : String} :
    name ∈ markerNames marker ↔ name ≠ "" ∧ name = marker := by
  unfold markerNames
  split_ifs with h
  · simp only [not_mem_nil, false_iff, not_and]
    rintro hname rfl
    exact hname h
  · rw [mem_singleton]
    constructor
    · rintro rfl
      exact ⟨h, rfl⟩
    · exact And.right

lemma exists_lastMarker (e : SecLangSecRule) (es : List SecLangSecRule) :
    ∃ last ∈ e :: es, last.secMarker = lastMarker e es := by
  induction es generalizing e with
  | nil => exact ⟨e, mem_cons_self, rfl⟩
  | cons e' es ih =>
    obtain ⟨last, hmem, hmarker⟩ := ih e'
    exact ⟨last, mem_cons_of_mem _ hmem, hmarker⟩

lemma first_or_last {x : SecLangSecRule} (hlength : (e :: es).length ≤ 2) (hx : x ∈ e :: es) :
    x = e ∨ x.secMarker = lastMarker e es := by
  rcases mem_cons.mp hx with rfl | hx
  · exact .inl rfl
  · right
    obtain ⟨e', es, rfl⟩ := exists_cons_of_ne_nil (ne_nil_of_mem hx)
    have hnil : es = [] := length_eq_zero_iff.mp (by simp only [length_cons] at hlength; omega)
    subst hnil
    rw [mem_singleton.mp hx]
    rfl

lemma markers_iff (h : ConvertedChain lib c b) (hlength : c.length ≤ 2) :
    (∀ name, name ∈ b.2 ↔ name ≠ "" ∧ ∃ e ∈ c, e.secMarker = name) ↔
      ∀ e ∈ c, ∀ e' ∈ c, e.secMarker ≠ "" → e'.secMarker ≠ "" → e.secMarker = e'.secMarker := by
  obtain ⟨e, es, rfl, _, _, hmarkers⟩ := h
  rw [hmarkers]
  simp only [mem_markerNames]
  constructor
  · intro h x hx y hy hxm hym
    have hxc := ((h x.secMarker).mpr ⟨hxm, x, hx, rfl⟩).2
    have hyc := ((h y.secMarker).mpr ⟨hym, y, hy, rfl⟩).2
    rw [hxc, hyc]
  · intro h name
    refine and_congr_right fun hname => ?_
    obtain ⟨last, hlast, hmarker⟩ := exists_lastMarker e es
    rw [chainMarker]
    constructor
    · intro hchosen
      by_cases hempty : lastMarker e es = ""
      · rw [if_pos hempty] at hchosen
        exact ⟨e, mem_cons_self, hchosen.symm⟩
      · rw [if_neg hempty] at hchosen
        exact ⟨last, hlast, by rw [hmarker, hchosen]⟩
    · rintro ⟨x, hx, rfl⟩
      by_cases hempty : lastMarker e es = ""
      · rw [if_pos hempty]
        rcases first_or_last hlength hx with rfl | hxlast
        · rfl
        · exact absurd (hxlast.trans hempty) hname
      · rw [if_neg hempty, ← hmarker]
        exact h x hx last hlast hname (by rw [hmarker]; exact hempty)

lemma chainKept_iff (hlib : lib.FlowKeys) (hc : IsChain hasChainInFlow c)
    (h : ConvertedChain lib c b) : ChainKept lib c b ↔ SimpleChain c := by
  constructor
  · intro hkept
    have hlength := (isChain_links_iff hlib hc h).mp hkept.chain
    exact ⟨hlength, (disruptive_chain_iff h).mp hkept.disruptive,
      (markers_iff h hlength).mp hkept.markers⟩
  · intro hsimple
    exact ⟨conditions_links h, (isChain_links_iff hlib hc h).mpr hsimple.length,
      (disruptive_chain_iff h).mpr hsimple.disruptive,
      (markers_iff h hsimple.length).mpr hsimple.markers⟩

/-! ## Reading the blocks back -/

def leadingMarkers : List (SeclangDirective α) → List String
  | .secMarker name :: ds => name :: leadingMarkers ds
  | _ => []

def blocksOf : List (SeclangDirective α) → List (Block α)
  | [] => []
  | .rule r :: ds => (r, leadingMarkers ds) :: blocksOf ds
  | .secMarker _ :: ds => blocksOf ds

lemma blocksOf_flatMap (blocks : List (Block α)) :
    blocksOf (blocks.flatMap Block.directives) = blocks := by
  induction blocks with
  | nil => rfl
  | cons b blocks ih =>
    obtain ⟨r, markers⟩ := b
    have hrest : leadingMarkers (blocks.flatMap Block.directives) = [] := by
      cases blocks <;> rfl
    have hleading : leadingMarkers (markers.map .secMarker ++ blocks.flatMap Block.directives)
        = markers := by
      induction markers with
      | nil => exact hrest
      | cons name markers ihm => rw [map_cons, cons_append, leadingMarkers, ihm]
    have hskip : blocksOf (markers.map .secMarker ++ blocks.flatMap Block.directives) = blocks := by
      clear hleading
      induction markers with
      | nil => exact ih
      | cons name markers ihm => rw [map_cons, cons_append, blocksOf, ihm]
    rw [flatMap_cons, Block.directives, cons_append, blocksOf, hleading, hskip]

/-- The bag is converted chain by chain exactly when its chains are simple. -/
theorem convertLegacySecLangRules_bagKept_iff {source : SecRule} {cs : List (List SecLangSecRule)}
    {out : List (SeclangDirective α)} (hlib : lib.FlowKeys)
    (hcs : ∀ c ∈ cs, IsChain hasChainInFlow c) (hsource : source.spec.secRules = cs.flatten)
    (hout : convertLegacySecLangRules lib source = .ok out) :
    BagKept lib cs source.spec.markerAfter out ↔ ∀ c ∈ cs, SimpleChain c := by
  obtain ⟨target, htarget, hout⟩ := bind_eq_ok.mp hout
  rw [hsource] at htarget
  obtain ⟨blocks, rfl, hblocks⟩ := convertBag_eq_ok hcs (Nat.le_refl _) htarget
  have hkept : BagKept lib cs source.spec.markerAfter out ↔
      List.Forall₂ (ChainKept lib) cs blocks := by
    rw [← pure_eq_ok.mp hout]
    constructor
    · rintro ⟨blocks', heq, hkept⟩
      have hblocks' := congrArg blocksOf (append_cancel_right heq)
      rw [blocksOf_flatMap, blocksOf_flatMap] at hblocks'
      rw [hblocks']
      exact hkept
    · intro hkept
      exact ⟨blocks, rfl, hkept⟩
  rw [hkept]
  clear hkept htarget hsource hout
  induction hblocks with
  | nil => simp
  | @cons c b _ _ hb _ ih =>
    have hrest := ih fun c' hc' => hcs c' (mem_cons_of_mem _ hc')
    rw [forall₂_cons, forall_mem_cons]
    exact and_congr (chainKept_iff hlib (hcs c mem_cons_self) hb) hrest

end

/-- An entry of a bag that tests one variable. -/
def bagEntry (value : String) (chain : Bool) (marker : String) : SecLangSecRule where
  conditions := [{ vars := [{ name := .known .REQUEST_URI, excluded := false }]
                   operator := { name := .known .rx, value } }]
  actions := some { flow := if chain then [{ type := .known .chain, value := "" }] else [] }
  secMarker := marker

/-- A rule, and a chain of two entries with a marker on the last one. -/
def pairBag : List (List SecLangSecRule) :=
  [[bagEntry "a" false ""], [bagEntry "b" true "", bagEntry "c" false "END"]]

theorem convertLegacySecLangRules_pairBag :
    plainCrslang.FlowKeys ∧ (∀ c ∈ pairBag, IsChain hasChainInFlow c) ∧
      ∃ out, convertLegacySecLangRules plainCrslang { spec := { secRules := pairBag.flatten } }
          = .ok out ∧ BagKept plainCrslang pairBag "" out := by
  have hcs : ∀ c ∈ pairBag, IsChain hasChainInFlow c := by
    rw [pairBag, forall_mem_cons, forall_mem_singleton]
    exact ⟨rfl, rfl, rfl⟩
  have hsimple : ∀ c ∈ pairBag, SimpleChain c := by
    rw [pairBag, forall_mem_cons, forall_mem_singleton]
    exact ⟨⟨by decide, by decide, by decide⟩, ⟨by decide, by decide, by decide⟩⟩
  have hsource : ({ spec := { secRules := pairBag.flatten } } : SecRule).spec.secRules
      = pairBag.flatten := rfl
  refine ⟨plainCrslang_flowKeys, hcs, _, rfl, ?_⟩
  exact (convertLegacySecLangRules_bagKept_iff plainCrslang_flowKeys hcs hsource rfl).mpr hsimple

/-- In a chain of three entries the second one does not chain any more. -/
theorem convertLegacySecLangRules_three_links :
    ∃ r : RuleWithCondition PlainAction,
      convertLegacySecLangRules plainCrslang
          { spec := { secRules := [bagEntry "a" true "", bagEntry "b" true "", bagEntry "c" false ""] } }
        = .ok [.rule r] ∧
      r.links.map (carriesChain plainCrslang) = [true, false, false] ∧
      chains (carriesChain plainCrslang) r.links = [r.links.take 2, r.links.drop 2] :=
  ⟨_, rfl, by decide, by decide⟩

end KubeWaf.Seclang
