import KubeWaf.Subresource.PromqlSlices
import KubeWaf.Subresource.PromqlUnion
import KubeWaf.Lib.Promql.RangeVector

/-!
# Range functions over several WAFs

`ScopePromQLToWAFs` writes the call of a range function once for each of the first 256 identities,
with `or` between the calls. For a function that maps series one by one this is the value on the
series of the identities, since the results keep the labels of the identity. For `absent_over_time`
it never is: each call gives an element of its own where its WAF has no series.
-/

namespace KubeWaf.Subresource

open Lib Lib.Promql List

/-! ## Brackets around a closed text -/

section
variable {opening closing : Char}

def isDelimiter (opening closing c : Char) : Bool := c == opening || c == closing

lemma runThrough_nestedStep {s : List Char} {st st' : Quote} (depth : ℤ)
    (h : runThrough (guardStep (isDelimiter opening closing)) st s = some st') :
    runThrough (nestedStep opening closing) (st, depth) s = some (st', depth) := by
  induction s generalizing st with
  | nil =>
    cases h
    rfl
  | cons c s ih =>
    obtain ⟨mid, hstep, hrun⟩ := Option.bind_eq_some_iff.mp h
    obtain ⟨hgood, rfl⟩ := guardStep_eq_some hstep
    have hnested : nestedStep opening closing (st, depth) c = some (st.next c, depth) := by
      by_cases hst : st = .outside
      · subst hst
        have hbad := hgood rfl
        rw [isDelimiter, Bool.or_eq_false_iff, beq_eq_false_iff_ne, beq_eq_false_iff_ne] at hbad
        rw [nestedStep, if_pos rfl, if_neg hbad.1, if_neg hbad.2, Quote.next]
        split_ifs <;> rfl
      · rw [nestedStep, if_neg hst]
    rw [runThrough, hnested, Option.bind_some]
    exact ih hrun

lemma skipNested_of_closed {e u : String} {body : List Char} (hopening : isQuote opening = false)
    (hclosing : isQuote closing = false) (hne : closing ≠ opening)
    (h : Closed (isDelimiter opening closing) body) (s : List Char) :
    skipNested opening closing e u (opening :: (body ++ closing :: s))
      = .ok (opening :: (body ++ [closing]), s) := by
  have hopen : nestedStep opening closing (.outside, 0) opening = some (.outside, 1) := by
    rw [nestedStep, if_pos rfl, hopening, if_neg (by decide), if_pos rfl]
    rfl
  have hclose : nestedStep opening closing (.outside, 1) closing = none := by
    rw [nestedStep, if_pos rfl, hclosing, if_neg (by decide), if_neg hne, if_pos rfl]
    rfl
  have hrun : runThrough (nestedStep opening closing) (.outside, 0) (opening :: body)
      = some (.outside, 1) := by
    rw [runThrough, hopen, Option.bind_some]
    exact runThrough_nestedStep 1 h
  have hscan : scanUntil (nestedStep opening closing) (.outside, 0)
      (opening :: (body ++ closing :: s)) = some (opening :: (body ++ [closing]), s) :=
    scanUntil_of_body hrun hclose
  have hstart : startsWith opening (opening :: (body ++ closing :: s)) = true := by
    simp [startsWith]
  rw [skipNested, hstart, hscan]
  rfl

end

/-! ## The call that is read -/

/-- A call as the rewriter can meet it: its range is a duration, and its other arguments are
numbers. -/
structure IsCall (call : RangeCall) : Prop where
  func : call.func ∈ rangeVectorFuncs
  selector : call.selector.WellFormed
  range : ∀ c ∈ call.range, isAlnum c = true
  args : ∀ c ∈ call.args, isAlnum c = true ∨ c ∈ [',', ' ', '.', '+', '-']

/-- No matcher of the selector mentions a label of the identity. -/
def IdentityFree (sel : Selector) : Prop := ∀ m ∈ sel.matchers, isIdentityKey m.name = false

/-- The call for one WAF. -/
def scopedCall (isPrint : ℕ → Bool) (call : RangeCall) (id : WAFIdentity) : RangeCall :=
  { call with selector := scopedSelector isPrint call.selector id }

section
variable {isPrint : ℕ → Bool} {ids : List WAFIdentity} {call : RangeCall} {c : Char}

lemma isName_rangeVectorFuncs : ∀ f ∈ rangeVectorFuncs,
    f ≠ [] ∧ (∀ c ∈ f, isAlnum c = true) ∧ startsWithDigit f = false ∧
      toLower f = f ∧ f ∉ promqlKeywords := by
  have hall : rangeVectorFuncs.all (fun f => f ≠ [] && f.all isAlnum && !startsWithDigit f
      && toLower f = f && f ∉ promqlKeywords) = true := by decide +kernel
  intro f hf
  have hf' := all_eq_true.mp hall f hf
  simpa only [Bool.and_eq_true, decide_eq_true_eq, all_eq_true, Bool.not_eq_true', and_assoc]
    using hf'

lemma IsCall.isName (h : IsCall call) : IsName call.func := by
  obtain ⟨hne, hchars, hdigit, _⟩ := isName_rangeVectorFuncs _ h.func
  refine ⟨fun c hc => by rw [isWordChar, hchars c hc, Bool.true_or], ?_, hne⟩
  obtain ⟨c, t, hf⟩ := exists_cons_of_ne_nil hne
  rw [hf] at hdigit ⊢
  exact headNot_cons hdigit

lemma isDelimiter_of_isAlnum {opening closing : Char} (hopening : isAlnum opening = false)
    (hclosing : isAlnum closing = false) (h : isAlnum c = true) :
    isDelimiter opening closing c = false := by
  rw [isDelimiter, Bool.or_eq_false_iff, beq_eq_false_iff_ne, beq_eq_false_iff_ne]
  constructor
  · intro heq
    rw [heq, hopening] at h
    exact absurd h (by decide)
  · intro heq
    rw [heq, hclosing] at h
    exact absurd h (by decide)

lemma isDelimiter_paren_of_isAlnum (h : isAlnum c = true) :
    isDelimiter '(' ')' c = false := isDelimiter_of_isAlnum (by decide) (by decide) h

lemma isDelimiter_paren_of_isWordChar (h : isWordChar c = true) :
    isQuote c = false ∧ isDelimiter '(' ')' c = false := by
  rw [isWordChar, Bool.or_eq_true, beq_iff_eq] at h
  rcases h with h | rfl
  · exact ⟨isQuote_of_isAlnum h, isDelimiter_paren_of_isAlnum h⟩
  · decide

lemma closed_bracesText {ms : List Matcher} (h : ∀ m ∈ ms, IsLabel m.name) :
    Closed (isDelimiter '(' ')') (bracesText isPrint ms) := by
  have hopen : Closed (isDelimiter '(' ')') ['\x7b'] := by decide
  have hclose : Closed (isDelimiter '(' ')') ['\x7d'] := by decide
  have hinner : Closed (isDelimiter '(' ')') (matchersText isPrint ms) :=
    closed_matchersText isPrint h (fun c => isDelimiter_paren_of_isAlnum)
      (eq_false_of_all (by decide)) (by decide)
  exact hopen.append (hinner.append hclose)

lemma closed_selectorText {sel : Selector} (h : sel.WellFormed) :
    Closed (isDelimiter '(' ')') (sel.text isPrint) := by
  have hmetric : Closed (isDelimiter '(' ')') sel.metric := by
    rcases h.metric with hnil | hname
    · rw [hnil]
      exact closed_nil
    · exact closed_of_plain (fun c hc => (isDelimiter_paren_of_isWordChar (hname.chars c hc)).1)
        fun c hc => (isDelimiter_paren_of_isWordChar (hname.chars c hc)).2
  rw [Selector.text]
  split_ifs
  · exact hmetric
  · exact hmetric.append (closed_bracesText h.labels)

/-- What stands between the parentheses of a call. -/
def callBody (isPrint : ℕ → Bool) (call : RangeCall) : List Char :=
  call.selector.text isPrint ++ ('[' :: (call.range ++ ']' :: call.args))

lemma closed_callBody (h : IsCall call) :
    Closed (isDelimiter '(' ')') (callBody isPrint call) := by
  have hopen : Closed (isDelimiter '(' ')') ['['] := by decide
  have hclose : Closed (isDelimiter '(' ')') [']'] := by decide
  have hrange : Closed (isDelimiter '(' ')') call.range :=
    closed_of_plain (fun c hc => isQuote_of_isAlnum (h.range c hc)) fun c hc =>
      isDelimiter_paren_of_isAlnum (h.range c hc)
  have hquotes : ∀ c ∈ [',', ' ', '.', '+', '-'], isQuote c = false :=
    eq_false_of_all (by decide)
  have hdelimiters : ∀ c ∈ [',', ' ', '.', '+', '-'], isDelimiter '(' ')' c = false :=
    eq_false_of_all (by decide)
  have hargs : Closed (isDelimiter '(' ')') call.args := by
    refine closed_of_plain ?_ ?_
    · intro c hc
      rcases h.args c hc with hc | hc
      · exact isQuote_of_isAlnum hc
      · exact hquotes c hc
    · intro c hc
      rcases h.args c hc with hc | hc
      · exact isDelimiter_paren_of_isAlnum hc
      · exact hdelimiters c hc
  exact (closed_selectorText h.selector).append
    (hopen.append (hrange.append (hclose.append hargs)))

lemma skipParen_callBody (h : IsCall call) :
    skipParen ('(' :: (callBody isPrint call ++ [')']))
      = .ok ('(' :: (callBody isPrint call ++ [')']), []) :=
  skipNested_of_closed (by decide) (by decide) (by decide) (closed_callBody h) []

lemma readRange_callRange (h : IsCall call) (s : List Char) :
    readRange ('[' :: (call.range ++ ']' :: s)) = .ok ('[' :: (call.range ++ [']']), s) := by
  have hclosed : Closed (isDelimiter '[' ']') call.range :=
    closed_of_plain (fun c hc => isQuote_of_isAlnum (h.range c hc)) fun c hc =>
      isDelimiter_of_isAlnum (by decide) (by decide) (h.range c hc)
  have hskip : skipBracket ('[' :: (call.range ++ ']' :: s)) = .ok ('[' :: (call.range ++ [']']), s) :=
    skipNested_of_closed (by decide) (by decide) (by decide) hclosed s
  have hspace : skipSpace ('[' :: (call.range ++ ']' :: s)) = '[' :: (call.range ++ ']' :: s) := rfl
  have hbetween : between ('[' :: (call.range ++ [']']) ++ s) s = '[' :: (call.range ++ [']']) :=
    between_append _ _
  rw [cons_append, append_assoc, singleton_append] at hbetween
  have hstart : startsWith '[' ('[' :: (call.range ++ ']' :: s)) = true := rfl
  rw [readRange, hspace, if_pos hstart, hskip]
  exact congrArg (fun text => Except.ok (text, s)) hbetween

lemma rangeArgument_braces {s i sel after metric next : List Char}
    (hread : readIdent (skipSpace s) = (metric, next))
    (hi : (if metric ≠ [] then skipSpace next else skipSpace s) = i)
    (hopen : startsWith '\x7b' i = true) (hsel : readSelector i = .ok (sel, after)) :
    rangeArgument (c :: s) = .ok (some (metric, selectorInner sel, after)) := by
  simp only [rangeArgument, hread]
  rw [hi, if_pos hopen, hsel]
  rfl

lemma isSpace_of_isIdentStart (h : isIdentStart c = true) : isSpace c = false := by
  simp only [isSpace, Bool.or_eq_false_iff, beq_eq_false_iff_ne]
  exact ⟨⟨⟨ne_of_isIdentStart h (by decide), ne_of_isIdentStart h (by decide)⟩,
    ne_of_isIdentStart h (by decide)⟩, ne_of_isIdentStart h (by decide)⟩

lemma rangeArgument_selectorText {sel : Selector} (h : sel.WellFormed) (s : List Char) :
    rangeArgument ('(' :: (sel.text isPrint ++ '[' :: s))
      = .ok (some (sel.metric, matchersText isPrint sel.matchers, '[' :: s)) := by
  obtain ⟨metric, ms⟩ := sel
  have hbraces : readSelector (bracesText isPrint ms ++ '[' :: s)
      = .ok (bracesText isPrint ms, '[' :: s) := readSelector_bracesText h.labels _
  have hinner : selectorInner (bracesText isPrint ms) = matchersText isPrint ms :=
    selectorInner_bracesText h.labels
  have hopen : startsWith '\x7b' (bracesText isPrint ms ++ '[' :: s) = true := rfl
  rcases h.metric with hnil | hname
  · obtain rfl : metric = [] := hnil
    rw [Selector.text, if_neg (by simp), nil_append, ← hinner]
    exact rangeArgument_braces rfl rfl hopen hbraces
  · obtain ⟨c, t, rfl⟩ := exists_cons_of_ne_nil hname.ne_nil
    have hread : ∀ rest, HeadNot isIdentCont rest →
        readIdent (skipSpace (c :: (t ++ rest))) = (c :: t, rest) := by
      intro rest hrest
      have hident : IdentAt c (t ++ rest) (c :: t) rest := identAt_name hname hrest
      have hspace : skipSpace (c :: (t ++ rest)) = c :: (t ++ rest) :=
        dropWhile_cons_of_neg (by rw [isSpace_of_isIdentStart hident.start]; decide)
      rw [hspace]
      exact hident.read
    by_cases hms : ms = []
    · subst hms
      rw [Selector.text, if_pos ⟨hname.ne_nil, rfl⟩, cons_append]
      simp only [rangeArgument, hread ('[' :: s) (headNot_cons (by decide))]
      rfl
    · rw [Selector.text, if_neg fun hbare => hms hbare.2, append_assoc, ← hinner]
      exact rangeArgument_braces (hread _ (headNot_cons (by decide))) rfl hopen hbraces

lemma rewriteRangeFuncCall_callText (h : IsCall call) (hfree : IdentityFree call.selector)
    (hids : ∀ id ∈ ids, id.ns ≠ [] ∧ id.name ≠ []) :
    rewriteRangeFuncCall isPrint ids call.func ('(' :: (callBody isPrint call ++ [')']))
      = .ok (some (orUnion (ids.map fun id => (scopedCall isPrint call id).text isPrint), [])) := by
  have hbody : callBody isPrint call ++ [')']
      = call.selector.text isPrint ++ '[' :: (call.range ++ ']' :: (call.args ++ [')'])) := by
    simp [callBody]
  have harg : rangeArgument ('(' :: (callBody isPrint call ++ [')']))
      = .ok (some (call.selector.metric, matchersText isPrint call.selector.matchers,
        '[' :: (call.range ++ ']' :: (call.args ++ [')'])))) := by
    rw [hbody]
    exact rangeArgument_selectorText h.selector _
  have hrange := readRange_callRange h (call.args ++ [')'])
  obtain ⟨parts, hparts⟩ := (@exists_scopedSelectorParts_iff isPrint ids call.selector.metric _ _ _).mpr
    ⟨rejectForeignIdentity_matchersText h.selector.labels hfree, hids, _, hrange⟩
  obtain ⟨rangeStr, hrange', hmap⟩ := scopedSelectorParts_matchersText h.selector.labels hparts
  obtain rfl : '[' :: (call.range ++ [']']) = rangeStr :=
    (Prod.mk.inj (Except.ok.inj (hrange.symm.trans hrange'))).1
  have hextra : extraArguments (call.args ++ [')']) [] = .ok call.args := by
    simp [extraArguments]
  have hbrace : ¬call.args.any isBrace = true := by
    rw [any_eq_true]
    rintro ⟨c, hc, hbrace⟩
    rw [isBrace, Bool.or_eq_true, beq_iff_eq, beq_iff_eq] at hbrace
    rcases hbrace with rfl | rfl
    · exact absurd (h.args _ hc) (by decide)
    · exact absurd (h.args _ hc) (by decide)
  rw [rewriteRangeFuncCall]
  refine bind_eq_ok.mpr ⟨_, harg, bind_eq_ok.mpr ⟨_, hparts, bind_eq_ok.mpr
    ⟨_, skipParen_callBody h, bind_eq_ok.mpr ⟨_, hextra, ?_⟩⟩⟩⟩
  have hcalls : (parts.map fun part => call.func ++ '(' :: part ++ call.args ++ [')'])
      = ids.map fun id => (scopedCall isPrint call id).text isPrint := by
    rw [hmap, map_map]
    refine map_congr_left fun id _ => ?_
    have htext : (scopedCall isPrint call id).selector.text isPrint
        = call.selector.metric ++ bracesText isPrint (id.matchers ++ keptMatchers isPrint call.selector.matchers) :=
      if_neg fun hbare => absurd hbare.2 (by simp [scopedCall, scopedSelector, WAFIdentity.matchers])
    rw [RangeCall.text, htext]
    simp [scopedCall]
  rw [if_neg hbrace, hcalls]

lemma rewriteStep_callText {t : List Char} (h : IsCall call) (hfunc : call.func = c :: t)
    (hfree : IdentityFree call.selector) (hids : ∀ id ∈ ids, id.ns ≠ [] ∧ id.name ≠ []) :
    rewriteStep isPrint ids c (t ++ '(' :: (callBody isPrint call ++ [')']))
      = .ok (orUnion (ids.map fun id => (scopedCall isPrint call id).text isPrint), []) := by
  obtain ⟨_, _, _, hlower, hplain⟩ := isName_rangeVectorFuncs _ h.func
  have hname := h.isName
  have hcall := @rewriteRangeFuncCall_callText isPrint ids call h hfree hids
  have hrange : toLower call.func ∈ rangeVectorFuncs := by
    rw [hlower]
    exact h.func
  rw [← hlower] at hplain
  rw [hfunc] at hname hcall hrange hplain
  have hparen : startsWith '(' ('(' :: (callBody isPrint call ++ [')'])) = true := rfl
  have hspace : skipSpace ('(' :: (callBody isPrint call ++ [')']))
      = '(' :: (callBody isPrint call ++ [')']) := rfl
  rw [rewriteStep, branch_name hname (headNot_cons (by decide)), nameBranch, if_neg hplain, hspace,
    if_pos hparen]
  simp only [if_pos hrange, hcall]
  rfl

lemma text_eq_callBody :
    call.text isPrint = call.func ++ '(' :: (callBody isPrint call ++ [')']) := by
  simp [RangeCall.text, callBody]

lemma scopePromQLToWAFs_callText (h : IsCall call) (hfree : IdentityFree call.selector)
    (hne : ids ≠ []) (hids : ∀ id ∈ ids, id.ns ≠ [] ∧ id.name ≠ []) :
    scopePromQLToWAFs isPrint (call.text isPrint) ids
      = .ok (orUnion ((ids.take maxPromQLUnionWAFs).map fun id =>
        (scopedCall isPrint call id).text isPrint)) := by
  obtain ⟨c, t, hfunc⟩ := exists_cons_of_ne_nil h.isName.ne_nil
  have htake : ∀ id ∈ ids.take maxPromQLUnionWAFs, id.ns ≠ [] ∧ id.name ≠ [] :=
    fun id hid => hids id (mem_of_mem_take hid)
  have hstep := @rewriteStep_callText isPrint _ call c t h hfunc hfree htake
  have htext : call.text isPrint = c :: (t ++ '(' :: (callBody isPrint call ++ [')'])) := by
    rw [text_eq_callBody, hfunc]
    rfl
  have htrim : Go.trimSpaceBytes (call.text isPrint) ≠ [] := by
    have hc : isAlnum c = true :=
      (isName_rangeVectorFuncs _ h.func).2.1 c (by rw [hfunc]; exact mem_cons_self)
    rw [htext]
    exact Go.trimSpaceBytes_ne_nil (isSpaceByte_of_isAlnum hc)
  rw [scopePromQLToWAFs, if_neg htrim, if_neg hne, rewritePromQL, htext, length_cons, rewriteLoop]
  refine bind_eq_ok.mpr ⟨_, hstep, ?_⟩
  have hrest : ∀ n, rewriteLoop isPrint (ids.take maxPromQLUnionWAFs) n [] = .ok [] := by
    intro n
    cases n <;> rfl
  simp only [hrest]
  exact congrArg Except.ok (append_nil _)

end

/-! ## What the calls evaluate to -/

section
variable {isPrint : ℕ → Bool} {regex : List Char → List Char → Bool} {σ V : Type}
  {sem : RangeSemantics σ V} {ids : List WAFIdentity} {call : RangeCall}

/-- The series of the identities. -/
def ofIdentities (ids : List WAFIdentity) (data : Set (TimeSeries σ)) : Set (TimeSeries σ) :=
  {x ∈ data | ∃ id ∈ ids, HasIdentity id x.labels}

/-- The value of the calls that are written for the identities. -/
noncomputable def evalScoped (isPrint : ℕ → Bool) (sem : RangeSemantics σ V)
    (regex : List Char → List Char → Bool) (call : RangeCall) (ids : List WAFIdentity)
    (data : Set (TimeSeries σ)) : Option (InstantVector V) :=
  orVectors (ids.map fun id => (scopedCall isPrint call id).eval sem regex data)

lemma showsInLabels_hasIdentity (id : WAFIdentity) : ShowsInLabels (HasIdentity id) := by
  intro s s' h
  have hlabel : ∀ label, label ≠ metricLabel → s label = s' label := by
    intro label hne
    have heq := congrFun h label
    rwa [withoutName, withoutName, if_neg hne, if_neg hne] at heq
  rw [HasIdentity, HasIdentity, hlabel _ (by decide), hlabel _ (by decide)]

lemma selects_scoped_iff (h : call.selector.WellFormed) (hfree : IdentityFree call.selector)
    (id : WAFIdentity) (s : Series) :
    (scopedSelector isPrint call.selector id).Selects regex s ↔
      call.selector.Selects regex s ∧ HasIdentity id s := by
  rw [selects_scopedSelector, keptSelector, keptMatchers_eq_self h.labels hfree]
  exact and_comm

lemma evalScoped_of_ne_absent (hsel : call.selector.WellFormed)
    (hfree : IdentityFree call.selector) (hids : ids ≠ [])
    (hfunc : call.func ≠ "absent_over_time".toList) (data : Set (TimeSeries σ)) :
    evalScoped isPrint sem regex call ids data = call.eval sem regex (ofIdentities ids data) := by
  have hone : ∀ id, (scopedCall isPrint call id).eval sem regex data
      = mapSeries (sem.value call.func call.range call.args)
        (resultLabels (sem.keepsName call.func))
        (fun s => call.selector.Selects regex s ∧ HasIdentity id s) data := by
    intro id
    have hclass : (scopedSelector isPrint call.selector id).Selects regex
        = fun s => call.selector.Selects regex s ∧ HasIdentity id s :=
      funext fun s => propext (selects_scoped_iff hsel hfree id s)
    rw [RangeCall.eval, scopedCall, if_neg hfunc, hclass]
  rw [evalScoped, map_congr_left fun id _ => hone id,
    orVectors_mapSeries hids (keepsLabels_resultLabels _) showsInLabels_hasIdentity,
    RangeCall.eval, if_neg hfunc, ofIdentities]
  exact (mapSeries_sep _).symm

lemma absentLabels_scopedSelector (h : call.selector.WellFormed)
    (hfree : IdentityFree call.selector) (id : WAFIdentity) :
    absentLabels (scopedSelector isPrint call.selector id) "waf_namespace".toList = id.ns := by
  have hother : ∀ m ∈ (⟨"waf_name".toList, .eq, id.name⟩ : Matcher) ::
      keptMatchers isPrint call.selector.matchers, m.name ≠ "waf_namespace".toList := by
    rw [forall_mem_cons, keptMatchers_eq_self h.labels hfree]
    have hne : "waf_name".toList ≠ "waf_namespace".toList := by decide
    refine ⟨hne, ?_⟩
    intro m hm heq
    exact absurd (hfree m hm) (by rw [heq]; decide)
  exact absentLabels_of_first (by decide) hother

lemma absentLabels_identityFree (hfree : IdentityFree call.selector) :
    absentLabels call.selector "waf_namespace".toList = [] := by
  refine absentLabels_of_notMem ?_ _
  intro m hm heq
  exact absurd (hfree m hm) (by rw [heq]; decide)

lemma evalScoped_absent_ne (hsel : call.selector.WellFormed)
    (hfree : IdentityFree call.selector) (hids : ∀ id ∈ ids, id.ns ≠ [])
    (hfunc : call.func = "absent_over_time".toList) :
    evalScoped isPrint sem regex call ids ∅ ≠ call.eval sem regex (ofIdentities ids ∅) := by
  have hempty : ∀ (sel : Selector) (data : Set (TimeSeries σ)), data ⊆ ∅ →
      absentSeries (sem.present call.range) sem.one (absentLabels sel) (sel.Selects regex) data
        = {(absentLabels sel, sem.one)} := by
    intro sel data hdata
    exact if_neg fun ⟨x, hx, _⟩ => hdata hx
  have hscoped : evalScoped isPrint sem regex call ids ∅ = orVectors ((ids.map fun id =>
      {(absentLabels (scopedSelector isPrint call.selector id), sem.one)}).map some) := by
    rw [evalScoped, map_map]
    refine congrArg orVectors (map_congr_left fun id _ => ?_)
    rw [RangeCall.eval, scopedCall, if_pos hfunc, hempty _ _ (Set.Subset.refl _)]
    rfl
  have hwhole : call.eval sem regex (ofIdentities ids ∅)
      = some {(absentLabels call.selector, sem.one)} := by
    rw [RangeCall.eval, if_pos hfunc, hempty _ _ fun x hx => hx.1]
  rw [hscoped, hwhole]
  intro heq
  obtain ⟨v, hv, hmem⟩ := exists_mem_of_mem_orVectors heq (Set.mem_singleton _)
  obtain ⟨id, hid, rfl⟩ := mem_map.mp hv
  have hpair : (absentLabels call.selector, sem.one)
      = (absentLabels (scopedSelector isPrint call.selector id), sem.one) := hmem
  have hns := congrFun (Prod.mk.inj hpair).1 "waf_namespace".toList
  rw [absentLabels_identityFree hfree, absentLabels_scopedSelector hsel hfree] at hns
  exact hids id hid hns.symm

/-- An identity can have a series on which the call has a value. -/
def CanHaveValue (sem : RangeSemantics σ V) (regex : List Char → List Char → Bool)
    (call : RangeCall) (id : WAFIdentity) : Prop :=
  ∃ x : TimeSeries σ, HasIdentity id x.labels ∧ call.selector.Selects regex x.labels ∧
    (sem.value call.func call.range call.args x.samples).isSome

lemma eval_ofIdentities_iff (hfunc : call.func ≠ "absent_over_time".toList)
    {taken : List WAFIdentity} (hsub : ∀ id ∈ taken, id ∈ ids) :
    (∀ data : Set (TimeSeries σ), call.eval sem regex (ofIdentities taken data)
        = call.eval sem regex (ofIdentities ids data)) ↔
      ∀ id ∈ ids, CanHaveValue sem regex call id → id ∈ taken := by
  simp only [RangeCall.eval, if_neg hfunc]
  constructor
  · rintro h id hid ⟨x, hident, hselects, hsome⟩
    by_contra htaken
    obtain ⟨v, hv⟩ := Option.isSome_iff_exists.mp hsome
    have hwhole : ofIdentities ids {x} = {x} := by
      refine Set.sep_eq_self_iff_mem_true.mpr fun y hy => ?_
      rw [Set.mem_singleton_iff.mp hy]
      exact ⟨id, hid, hident⟩
    have hnone : ofIdentities taken {x} = ∅ := by
      refine Set.sep_eq_empty_iff_mem_false.mpr fun y hy => ?_
      rw [Set.mem_singleton_iff.mp hy]
      rintro ⟨id', htake, hident'⟩
      rw [hasIdentity_inj hident hident'] at htaken
      exact htaken htake
    have heq := h {x}
    rw [hwhole, hnone, mapSeries_singleton hselects hv, mapSeries_empty, Option.some.injEq] at heq
    exact Set.singleton_ne_empty _ heq.symm
  · intro h data
    simp only [ofIdentities, mapSeries_sep fun s => ∃ id ∈ taken, HasIdentity id s,
      mapSeries_sep fun s => ∃ id ∈ ids, HasIdentity id s]
    refine mapSeries_congr fun x _ hsome => and_congr_right fun hselects => ?_
    constructor
    · rintro ⟨id, htake, hident⟩
      exact ⟨id, hsub id htake, hident⟩
    · rintro ⟨id, hid, hident⟩
      exact ⟨id, h id hid ⟨x, hident, hselects, hsome⟩, hident⟩

end

/-- Functions that take the samples of a series for its value. -/
def lastSample : RangeSemantics ℕ ℕ where
  value _ _ _ samples := some samples
  present _ _ := true
  keepsName _ := false
  one := 1

def rateOfErrors : RangeCall := ⟨"rate".toList, serverErrors, "5m".toList, []⟩

def absentUp : RangeCall := ⟨"absent_over_time".toList, ⟨"up".toList, []⟩, "5m".toList, []⟩

end KubeWaf.Subresource
