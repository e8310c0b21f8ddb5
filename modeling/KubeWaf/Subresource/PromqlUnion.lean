import KubeWaf.Subresource.PromqlPrinted
import KubeWaf.Lib.Promql.Series

/-!
# Selectors over several WAFs

`ScopePromQLToWAFs` writes a selector once for each of the first 256 identities. Equalities on the
labels of the identity that the query had are accepted if one of the identities satisfies them, and
are then left out of every copy. So the union selects the series of the identities that pass the
selector exactly when the first 256 are the ones that its own equalities leave.
-/

namespace KubeWaf.Subresource

open Lib Lib.Promql List

variable {ts : List Token} {metric out w : List Char} {ms : List Matcher}

/-! ## Selectors and identities -/

/-- A series of a WAF. -/
def HasIdentity (id : WAFIdentity) (s : Series) : Prop :=
  s "waf_namespace".toList = id.ns ∧ s "waf_name".toList = id.name

/-- The value of a label of the identity. -/
def WAFIdentity.label (id : WAFIdentity) (name : List Char) : List Char :=
  if name = "waf_namespace".toList then id.ns else id.name

/-- A selector without the matchers that the rewriter strips. -/
def keptSelector (isPrint : ℕ → Bool) (sel : Selector) : Selector :=
  ⟨sel.metric, keptMatchers isPrint sel.matchers⟩

/-- What the rewriter makes of a selector for one identity. -/
def scopedSelector (isPrint : ℕ → Bool) (sel : Selector) (id : WAFIdentity) : Selector :=
  ⟨sel.metric, id.matchers ++ keptMatchers isPrint sel.matchers⟩

section
variable {isPrint : ℕ → Bool} {regex : List Char → List Char → Bool} {sel : Selector}
  {id : WAFIdentity} {s : Series}

lemma wellFormed_scopedSelector (h : sel.WellFormed) :
    (scopedSelector isPrint sel id).WellFormed where
  metric := h.metric
  labels := by
    intro m hm
    rcases mem_append.mp hm with hm | hm
    · exact isLabel_matchers id m hm
    · exact h.labels m (mem_of_mem_filter hm)

lemma selects_scopedSelector :
    (scopedSelector isPrint sel id).Selects regex s ↔
      HasIdentity id s ∧ (keptSelector isPrint sel).Selects regex s := by
  have hid : (∀ m ∈ id.matchers, m.Accepts regex s) ↔ HasIdentity id s := by
    rw [WAFIdentity.matchers, forall_mem_cons, forall_mem_singleton]
    rfl
  rw [Selector.Selects, Selector.Selects, scopedSelector, keptSelector, forall_mem_append, hid]
  tauto

lemma selects_iff_kept :
    sel.Selects regex s ↔ (keptSelector isPrint sel).Selects regex s ∧
      ∀ m ∈ sel.matchers, keepMatcher (m.text isPrint) = false → m.Accepts regex s := by
  rw [Selector.Selects, Selector.Selects, keptSelector, keptMatchers]
  simp only [mem_filter]
  constructor
  · rintro ⟨hmetric, hall⟩
    exact ⟨⟨hmetric, fun m hm => hall m hm.1⟩, fun m hm _ => hall m hm⟩
  · rintro ⟨⟨hmetric, hkept⟩, hstripped⟩
    refine ⟨hmetric, fun m hm => ?_⟩
    by_cases hkeep : keepMatcher (m.text isPrint) = true
    · exact hkept m ⟨hm, hkeep⟩
    · exact hstripped m hm (Bool.eq_false_iff.mpr hkeep)

lemma accepts_identity {m : Matcher} (hs : HasIdentity id s)
    (hm : isIdentityKey m.name = true ∧ m.op = .eq) :
    m.Accepts regex s ↔ m.value = id.label m.name := by
  obtain ⟨hkey, hop⟩ := hm
  have hlabel : s m.name = id.label m.name := by
    rw [isIdentityKey, Bool.or_eq_true, beq_iff_eq, beq_iff_eq] at hkey
    rw [WAFIdentity.label]
    rcases hkey with hkey | hkey
    · rw [if_pos hkey, hkey]
      exact hs.1
    · rw [hkey, if_neg (by decide)]
      exact hs.2
  simp only [Matcher.Accepts, hop, hlabel]
  exact eq_comm

/-! ## Unions -/

/-- The identities that the rewriter takes are those that the selector leaves, as far as they can
have series that pass its other matchers. -/
def ReachesIdentities (isPrint : ℕ → Bool) (regex : List Char → List Char → Bool) (sel : Selector)
    (ids : List WAFIdentity) : Prop :=
  ∀ id ∈ ids, (∃ s, HasIdentity id s ∧ (keptSelector isPrint sel).Selects regex s) →
    (id ∈ ids.take maxPromQLUnionWAFs ↔
      ∀ m ∈ sel.matchers, keepMatcher (m.text isPrint) = false → m.value = id.label m.name)

/-- The selectors of a union select, among any series, those of the identities that pass the
selector. -/
def SelectsIntersection (regex : List Char → List Char → Bool) (sel : Selector)
    (ids : List WAFIdentity) (sels : List Selector) : Prop :=
  ∀ S : Set Series, {s ∈ S | ∃ x ∈ sels, x.Selects regex s}
    = {s ∈ S | sel.Selects regex s ∧ ∃ id ∈ ids, HasIdentity id s}

lemma hasIdentity_inj {id' : WAFIdentity} (h : HasIdentity id s) (h' : HasIdentity id' s) :
    id = id' := by
  obtain ⟨ns, name⟩ := id
  obtain ⟨ns', name'⟩ := id'
  have hns : ns = ns' := h.1.symm.trans h'.1
  have hname : name = name' := h.2.symm.trans h'.2
  rw [hns, hname]

lemma selectsIntersection_iff {ids : List WAFIdentity}
    (hstrip : ∀ m ∈ sel.matchers, keepMatcher (m.text isPrint) = false →
      isIdentityKey m.name = true ∧ m.op = .eq) :
    SelectsIntersection regex sel ids
        ((ids.take maxPromQLUnionWAFs).map (scopedSelector isPrint sel)) ↔
      ReachesIdentities isPrint regex sel ids := by
  have hunion : ∀ s, (∃ x ∈ (ids.take maxPromQLUnionWAFs).map (scopedSelector isPrint sel),
      x.Selects regex s) ↔ ∃ id ∈ ids.take maxPromQLUnionWAFs,
        HasIdentity id s ∧ (keptSelector isPrint sel).Selects regex s := by
    intro s
    simp only [mem_map, exists_exists_and_eq_and, selects_scopedSelector]
  have hvalues : ∀ id s, HasIdentity id s →
      ((∀ m ∈ sel.matchers, keepMatcher (m.text isPrint) = false → m.Accepts regex s) ↔
        ∀ m ∈ sel.matchers, keepMatcher (m.text isPrint) = false → m.value = id.label m.name) := by
    intro id s hs
    exact forall₃_congr fun m hm hk => accepts_identity hs (hstrip m hm hk)
  constructor
  · intro h id hid ⟨s, hs, hkept⟩
    have hset := congrArg (s ∈ ·) (h Set.univ)
    simp only [Set.mem_univ, true_and, hunion, eq_iff_iff] at hset
    rw [← hvalues id s hs]
    constructor
    · intro htake
      exact (selects_iff_kept.mp (hset.mp ⟨id, htake, hs, hkept⟩).1).2
    · intro hstripped
      obtain ⟨id', htake, hs', _⟩ := hset.mpr ⟨selects_iff_kept.mpr ⟨hkept, hstripped⟩, id, hid, hs⟩
      rw [hasIdentity_inj hs hs']
      exact htake
  · intro h S
    ext s
    simp only [Set.mem_sep_iff, hunion]
    refine and_congr_right fun _ => ?_
    constructor
    · rintro ⟨id, htake, hs, hkept⟩
      have hid := mem_of_mem_take htake
      have hreach := (h id hid ⟨s, hs, hkept⟩).mp htake
      exact ⟨selects_iff_kept.mpr ⟨hkept, (hvalues id s hs).mpr hreach⟩, id, hid, hs⟩
    · rintro ⟨hsel, id, hid, hs⟩
      obtain ⟨hkept, hstripped⟩ := (@selects_iff_kept isPrint _ _ _).mp hsel
      exact ⟨id, (h id hid ⟨s, hs, hkept⟩).mpr ((hvalues id s hs).mp hstripped), hs, hkept⟩

end

/-! ## What is written -/

section
variable {isPrint : ℕ → Bool} {ids : List WAFIdentity} {sel : Selector} {sels : List Selector}

/-- The text of a selector with braces. -/
def bracedText (isPrint : ℕ → Bool) (sel : Selector) : List Char :=
  sel.metric ++ bracesText isPrint sel.matchers

lemma lexes_join (h : ∀ sel ∈ sels, sel.WellFormed) {s : List Char} (hs : Lexes s ts) :
    Lexes (Go.join " or ".toList (sels.map (bracedText isPrint)) ++ s) (orTokens sels ++ ts) := by
  induction sels with
  | nil => exact hs
  | cons sel sels ih =>
    have hsel := h sel mem_cons_self
    cases sels with
    | nil =>
      rw [Go.join, map_singleton, intercalate_singleton, bracedText, append_assoc]
      exact lexes_selector hsel hs
    | cons sel' sels' =>
      have hrest := ih fun x hx => h x (mem_cons_of_mem _ hx)
      rw [Go.join, map_cons, map_cons, intercalate_cons_cons, ← map_cons, append_assoc,
        append_assoc, bracedText, append_assoc, orTokens, append_assoc, cons_append]
      · exact lexes_selector hsel (lexes_or hrest)
      · simp

lemma lexes_orUnion (h : ∀ sel ∈ sels, sel.WellFormed) :
    Lexes (orUnion (sels.map (bracedText isPrint))) (unionTokens sels) := by
  have hmany : Lexes ('(' :: (Go.join " or ".toList (sels.map (bracedText isPrint)) ++ [')']))
      (.lparen :: (orTokens sels ++ [.rparen])) :=
    lexes_token rfl (lexes_join h (lexes_token rfl .nil))
  match sels, h, hmany with
  | [], _, hmany => exact hmany
  | [sel], h, _ =>
    have hone : Lexes (sel.metric ++ (bracesText isPrint sel.matchers ++ [])) (sel.tokens ++ []) :=
      lexes_selector (h sel mem_cons_self) .nil
    rw [append_nil, append_nil] at hone
    exact hone
  | _ :: _ :: _, _, hmany => exact hmany

lemma emitScopedSelectors_matchersText {piece next : List Char} (h : ∀ m ∈ ms, IsLabel m.name)
    (hok : emitScopedSelectors isPrint ids metric (matchersText isPrint ms) [] = .ok (piece, next)) :
    next = [] ∧
      piece = orUnion (ids.map fun id => bracedText isPrint (scopedSelector isPrint ⟨metric, ms⟩ id)) ∧
      ∀ m ∈ ms, keepMatcher (m.text isPrint) = false → isIdentityKey m.name = true ∧ m.op = .eq := by
  obtain ⟨⟨parts, after⟩, hparts, hok⟩ := bind_eq_ok.mp hok
  simp only [Except.ok.injEq, Prod.mk.injEq] at hok
  obtain ⟨rangeStr, hrange, hmap⟩ := scopedSelectorParts_matchersText h hparts
  have hnone : readRange [] = .ok ([], []) := rfl
  rw [hnone] at hrange
  simp only [Except.ok.injEq, Prod.mk.injEq] at hrange
  refine ⟨by rw [← hok.2, ← hrange.2], ?_, fun m hm => stripped_of_scopedSelectorParts h hparts hm⟩
  rw [← hok.1, hmap, ← hrange.1]
  simp [bracedText, scopedSelector]

/-- The equalities that the rewriter strips from a selector. -/
def Strips (isPrint : ℕ → Bool) (sel : Selector) : Prop :=
  ∀ m ∈ sel.matchers, keepMatcher (m.text isPrint) = false →
    isIdentityKey m.name = true ∧ m.op = .eq

/-- The selectors that the rewriter makes of one. -/
def unionText (isPrint : ℕ → Bool) (sel : Selector) (ids : List WAFIdentity) : List Char :=
  orUnion (ids.map fun id => bracedText isPrint (scopedSelector isPrint sel id))

lemma rewriteSelectorAt_bracesText (h : ∀ m ∈ ms, IsLabel m.name) :
    rewriteSelectorAt isPrint ids metric (bracesText isPrint ms)
      = emitScopedSelectors isPrint ids metric (matchersText isPrint ms) [] := by
  have hread : readSelector (bracesText isPrint ms ++ []) = .ok (bracesText isPrint ms, []) :=
    readSelector_bracesText h []
  rw [append_nil] at hread
  rw [rewriteSelectorAt, hread, ← selectorInner_bracesText h]
  rfl

lemma rewrites_of_emit {c : Char} {s : List Char} (h : ∀ m ∈ ms, IsLabel m.name)
    (hout : Rewrites isPrint ids (c :: s) out) (hstep : rewriteStep isPrint ids c s
      = emitScopedSelectors isPrint ids metric (matchersText isPrint ms) []) :
    out = unionText isPrint ⟨metric, ms⟩ ids ∧ Strips isPrint ⟨metric, ms⟩ := by
  cases hout with
  | @step _ _ piece next out hone hrest =>
    rw [hstep] at hone
    obtain ⟨rfl, rfl, hstrip⟩ := emitScopedSelectors_matchersText h hone
    cases hrest
    exact ⟨append_nil _, hstrip⟩

lemma rewrites_bracesText (h : ∀ m ∈ ms, IsLabel m.name)
    (hout : Rewrites isPrint ids (bracesText isPrint ms) out) :
    out = unionText isPrint ⟨[], ms⟩ ids ∧ Strips isPrint ⟨[], ms⟩ :=
  rewrites_of_emit h hout (rewriteSelectorAt_bracesText h)

lemma rewrites_metric (hmetric : IsName metric) (hplain : toLower metric ∉ promqlKeywords)
    (h : ∀ m ∈ ms, IsLabel m.name)
    (hout : Rewrites isPrint ids (Selector.text isPrint ⟨metric, ms⟩) out) :
    out = unionText isPrint ⟨metric, ms⟩ ids ∧ Strips isPrint ⟨metric, ms⟩ := by
  obtain ⟨c, t, rfl⟩ := exists_cons_of_ne_nil hmetric.ne_nil
  rw [Selector.text] at hout
  by_cases hms : ms = []
  · subst hms
    rw [if_pos ⟨hmetric.ne_nil, rfl⟩] at hout
    have hbranch := branch_name hmetric (headNot_nil isIdentCont)
    have hopens : ¬Opens (skipSpace []) := by
      rw [Opens, not_or]
      exact ⟨by decide, by decide⟩
    rw [append_nil, nameBranch_metric hplain hopens] at hbranch
    refine rewrites_of_emit (by simp) hout ?_
    rw [rewriteStep, hbranch]
    rfl
  · rw [if_neg fun hbare => hms hbare.2] at hout
    have hbranch := branch_name (s := bracesText isPrint ms) hmetric (headNot_cons (by decide))
    rw [nameBranch_braces hplain rfl] at hbranch
    refine rewrites_of_emit h hout ?_
    have hstep : rewriteStep isPrint ids c (t ++ bracesText isPrint ms)
        = rewriteSelectorAt isPrint ids (c :: t) (bracesText isPrint ms) := by
      rw [rewriteStep, hbranch]
      rfl
    exact hstep.trans (rewriteSelectorAt_bracesText h)

lemma rewrites_keyword (hmetric : IsName metric) (hkeyword : toLower metric ∈ promqlKeywords)
    (h : ∀ m ∈ ms, IsLabel m.name)
    (hout : Rewrites isPrint ids (Selector.text isPrint ⟨metric, ms⟩) out) :
    (ms = [] ∧ out = metric) ∨
      (ms ≠ [] ∧ out = metric ++ unionText isPrint ⟨[], ms⟩ ids ∧ Strips isPrint ⟨[], ms⟩) := by
  obtain ⟨c, t, rfl⟩ := exists_cons_of_ne_nil hmetric.ne_nil
  have hround : ∀ s, startsWith '(' (skipSpace s) = false → HeadNot isIdentCont s →
      rewriteStep isPrint ids c (t ++ s) = .ok (c :: t, s) := by
    intro s hparen hs
    have hlist : copyGroupingList s = ([], s) := by rw [copyGroupingList, hparen]; rfl
    rw [rewriteStep, branch_name hmetric hs, nameBranch, if_pos hkeyword]
    simp [hlist]
  rw [Selector.text] at hout
  by_cases hms : ms = []
  · subst hms
    rw [if_pos ⟨hmetric.ne_nil, rfl⟩] at hout
    left
    have hstep := hround [] (by decide) (headNot_nil _)
    rw [append_nil] at hstep
    cases hout with
    | step hone hrest =>
      obtain ⟨rfl, rfl⟩ := Prod.mk.inj (Except.ok.inj (hstep.symm.trans hone))
      cases hrest
      exact ⟨rfl, append_nil _⟩
  · rw [if_neg fun hbare => hms hbare.2] at hout
    right
    have hstep := hround (bracesText isPrint ms) rfl (headNot_cons (by decide))
    cases hout with
    | step hone hrest =>
      obtain ⟨rfl, rfl⟩ := Prod.mk.inj (Except.ok.inj (hstep.symm.trans hone))
      obtain ⟨rfl, hstrip⟩ := rewrites_bracesText h hrest
      exact ⟨hms, rfl, hstrip⟩

/-! ## Unions that are no unions -/

lemma lexes_unique {s : List Char} {ts' : List Token} (h : Lexes s ts) (h' : Lexes s ts') :
    ts = ts' :=
  Option.some.inj ((lex_eq_some_iff.mpr h).symm.trans (lex_eq_some_iff.mpr h'))

lemma unionTokens_ne_word (h : ∀ ms ts', ts ≠ .braces ms :: ts') :
    unionTokens sels ≠ .word w :: ts := by
  intro heq
  match sels, heq with
  | [], heq => exact absurd heq (by simp [unionTokens])
  | [sel], heq =>
    rw [unionTokens, Selector.tokens] at heq
    split_ifs at heq
    · cases heq
    · exact h _ _ (List.cons.inj heq).2.symm
  | _ :: _ :: _, heq => exact absurd heq (by simp [unionTokens])

lemma lexes_keyword {s : List Char} (hw : IsName w) (hs : HeadNot isWordChar s) (h : Lexes s ts) :
    Lexes (w ++ s) (.word w :: ts) :=
  lexes_token (lexOne_name hw hs) h

lemma lexes_unionText (h : sel.WellFormed) :
    Lexes (unionText isPrint sel ids) (unionTokens (ids.map (scopedSelector isPrint sel))) := by
  have hwf : ∀ x ∈ ids.map (scopedSelector isPrint sel), x.WellFormed := by
    intro x hx
    obtain ⟨id, _, rfl⟩ := mem_map.mp hx
    exact wellFormed_scopedSelector h
  have hlex : Lexes (orUnion ((ids.map (scopedSelector isPrint sel)).map (bracedText isPrint)))
      (unionTokens (ids.map (scopedSelector isPrint sel))) := lexes_orUnion hwf
  rw [map_map] at hlex
  exact hlex

end

/-- The conditions on a selector and the identities under which the union is the intersection. A
metric that is a keyword to the rewriter stays one only with braces and for one identity. -/
structure UnionExact (isPrint : ℕ → Bool) (regex : List Char → List Char → Bool) (sel : Selector)
    (ids : List WAFIdentity) : Prop where
  metric : toLower sel.metric ∈ promqlKeywords → sel.matchers ≠ [] ∧ ids.length = 1
  identities : ReachesIdentities isPrint regex sel ids

/-- What is written is a union that selects the intersection. -/
def WritesIntersection (regex : List Char → List Char → Bool) (sel : Selector)
    (ids : List WAFIdentity) (out : List Char) : Prop :=
  ∃ sels, Lexes out (unionTokens sels) ∧ SelectsIntersection regex sel ids sels

section
variable {isPrint : ℕ → Bool} {regex : List Char → List Char → Bool} {sel : Selector}
  {ids : List WAFIdentity}

lemma writesIntersection_unionText (h : sel.WellFormed) (hstrip : Strips isPrint sel) :
    WritesIntersection regex sel ids (unionText isPrint sel (ids.take maxPromQLUnionWAFs)) ↔
      ReachesIdentities isPrint regex sel ids := by
  have hlex : Lexes (unionText isPrint sel (ids.take maxPromQLUnionWAFs))
      (unionTokens ((ids.take maxPromQLUnionWAFs).map (scopedSelector isPrint sel))) :=
    lexes_unionText h
  rw [← selectsIntersection_iff hstrip]
  constructor
  · rintro ⟨sels, hsels, hselects⟩
    have htokens := congrArg (selectorsIn true) (lexes_unique hsels hlex)
    rw [selectorsIn_unionTokens, selectorsIn_unionTokens] at htokens
    rw [← htokens]
    exact hselects
  · intro hselects
    exact ⟨_, hlex, hselects⟩

lemma not_writesIntersection_word (hw : IsName w) : ¬WritesIntersection regex sel ids w := by
  intro ⟨sels, hsels, _⟩
  have hword : Lexes (w ++ []) [.word w] := lexes_keyword hw (headNot_nil _) .nil
  rw [append_nil] at hword
  exact unionTokens_ne_word (by simp) (lexes_unique hsels hword)

lemma not_writesIntersection_call {id id' : WAFIdentity} {taken : List WAFIdentity}
    (hw : IsName w) (h : sel.WellFormed) :
    ¬WritesIntersection regex sel ids
      (w ++ unionText isPrint ⟨[], sel.matchers⟩ (id :: id' :: taken)) := by
  intro ⟨sels, hsels, _⟩
  have hunion : Lexes (unionText isPrint ⟨[], sel.matchers⟩ (id :: id' :: taken))
      (unionTokens ((id :: id' :: taken).map (scopedSelector isPrint ⟨[], sel.matchers⟩))) :=
    lexes_unionText ⟨.inl rfl, h.labels⟩
  have hcall := lexes_keyword hw (headNot_cons (by decide)) hunion
  exact unionTokens_ne_word (by simp [unionTokens]) (lexes_unique hsels hcall)

lemma writesIntersection_keyword (h : sel.WellFormed) (hids : ids ≠ [])
    (hmetric : IsName sel.metric) (hkeyword : toLower sel.metric ∈ promqlKeywords)
    (hout : Rewrites isPrint (ids.take maxPromQLUnionWAFs) (sel.text isPrint) out) :
    WritesIntersection regex sel ids out ↔
      (sel.matchers ≠ [] ∧ ids.length = 1) ∧ ReachesIdentities isPrint regex sel ids := by
  rcases rewrites_keyword hmetric hkeyword h.labels hout with ⟨hms, rfl⟩ | ⟨hms, rfl, hstrip⟩
  · refine iff_of_false (not_writesIntersection_word hmetric) ?_
    intro ⟨hsel, _⟩
    exact hsel.1 hms
  · match ids, hids with
    | [id], _ =>
      have htext : sel.metric ++ unionText isPrint ⟨[], sel.matchers⟩ ([id].take maxPromQLUnionWAFs)
          = unionText isPrint sel ([id].take maxPromQLUnionWAFs) := rfl
      rw [htext, writesIntersection_unionText h hstrip]
      exact (and_iff_right ⟨hms, rfl⟩).symm
    | id :: id' :: ids, _ =>
      refine iff_of_false (not_writesIntersection_call hmetric h) ?_
      intro ⟨hsel, _⟩
      exact absurd hsel.2 (by simp)

end

def serverErrors : Selector := ⟨"up".toList, [⟨"code".toList, .re, "5..".toList⟩]⟩

def twoTeams : List WAFIdentity :=
  [⟨"team-a".toList, "x".toList⟩, ⟨"team-b".toList, "y".toList⟩]

def teamA : Selector := ⟨"up".toList, [⟨"waf_namespace".toList, .eq, "team-a".toList⟩]⟩

/-- A series of the second team. -/
def upTeamB (label : List Char) : List Char :=
  if label = "__name__".toList then "up".toList
  else if label = "waf_namespace".toList then "team-b".toList
  else "y".toList

end KubeWaf.Subresource
