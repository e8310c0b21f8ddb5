import KubeWaf.Subresource.PromqlWalk
import Mathlib

/-!
# Printed selectors

What the rewriter makes of a selector in the text that Prometheus prints for it: it splits the
matchers where they end, it takes a matcher for one of the identity only if its label is one, and
the selector that it writes is the printed one with the matchers of the identity in front.
-/

namespace KubeWaf.Subresource

open Lib Lib.Promql List

variable {isPrint : ℕ → Bool} {m : Matcher} {ms : List Matcher} {key afterSel : List Char}
  {found : List Char × List Char}

/-! ## Splitting -/

lemma isSpaceByte_of_isAlnum {c : Char} (h : isAlnum c = true) : Go.isSpaceByte c = false := by
  have hall : (Go.spaces.flatten.all fun d => !isAlnum d) = true := by decide
  by_contra hspace
  rw [Bool.not_eq_false] at hspace
  have hc := all_eq_true.mp hall c (by simpa [Go.isSpaceByte] using hspace)
  rw [h] at hc
  exact absurd hc (by decide)

lemma text_ends (isPrint : ℕ → Bool) (hm : IsLabel m.name) :
    (∃ c t, m.text isPrint = c :: t ∧ Go.isSpaceByte c = false) ∧
      ∃ t, m.text isPrint = t ++ ['"'] := by
  obtain ⟨c, t, hname, _⟩ := hm.exists_cons
  have hc := isSpaceByte_of_isAlnum (hm.chars c (hname ▸ mem_cons_self))
  refine ⟨⟨c, t ++ (m.op.text ++ Go.quote isPrint m.value), ?_, hc⟩,
    m.name ++ (m.op.text ++ '"' :: Go.quoteFrom isPrint 0 m.value), ?_⟩
  · rw [Matcher.text, hname, cons_append]
  · rw [Matcher.text, Go.quote, append_assoc, append_assoc]

lemma matchersText_ends (isPrint : ℕ → Bool) (h : ∀ m ∈ ms, IsLabel m.name) (hne : ms ≠ []) :
    (∃ c t, matchersText isPrint ms = c :: t ∧ Go.isSpaceByte c = false) ∧
      ∃ t, matchersText isPrint ms = t ++ ['"'] := by
  induction ms with
  | nil => exact absurd rfl hne
  | cons m ms ih =>
    have hm := text_ends isPrint (h m mem_cons_self)
    by_cases hms : ms = []
    · subst hms
      rw [matchersText_singleton]
      exact hm
    · obtain ⟨⟨c, t, htext, hc⟩, _⟩ := hm
      obtain ⟨_, t', htail⟩ := ih (fun m' hm' => h m' (mem_cons_of_mem _ hm')) hms
      rw [matchersText_cons isPrint m hms]
      refine ⟨⟨c, t ++ ',' :: matchersText isPrint ms, by rw [htext, cons_append], hc⟩,
        m.text isPrint ++ ',' :: t', ?_⟩
      rw [htail, append_assoc, cons_append]

lemma trim_eq_self {s : List Char} (h : ∃ c t, s = c :: t ∧ Go.isSpaceByte c = false)
    (h' : ∃ t, s = t ++ ['"']) : Go.trimSpaceBytes s = s := by
  obtain ⟨c, t, hs, hc⟩ := h
  obtain ⟨t', hs'⟩ := h'
  refine Go.trimSpaceBytes_eq_self ?_ ?_
  · intro d u hd
    rw [hs] at hd
    rw [← (List.cons.inj hd).1]
    exact hc
  · intro u d hd
    rw [hs'] at hd
    rw [← singleton_inj.mp (append_inj_right' hd rfl)]
    decide

lemma trim_text (hm : IsLabel m.name) :
    Go.trimSpaceBytes (m.text isPrint) = m.text isPrint :=
  trim_eq_self (text_ends isPrint hm).1 (text_ends isPrint hm).2

lemma trim_matchersText (h : ∀ m ∈ ms, IsLabel m.name) :
    Go.trimSpaceBytes (matchersText isPrint ms) = matchersText isPrint ms := by
  by_cases hne : ms = []
  · subst hne
    rfl
  · exact trim_eq_self (matchersText_ends isPrint h hne).1 (matchersText_ends isPrint h hne).2

lemma matchersText_eq_nil (h : ∀ m ∈ ms, IsLabel m.name) :
    matchersText isPrint ms = [] ↔ ms = [] := by
  constructor
  · intro hnil
    by_contra hne
    obtain ⟨⟨c, t, htext, _⟩, _⟩ := matchersText_ends isPrint h hne
    rw [htext] at hnil
    cases hnil
  · rintro rfl
    rfl

def isComma (c : Char) : Bool := c == ','

lemma splitLoop_append {st st' : Quote} {cur seg s : List Char}
    (h : runThrough (guardStep isComma) st seg = some st') :
    splitLoop st cur (seg ++ s) = splitLoop st' (cur ++ seg) s := by
  induction seg generalizing st cur with
  | nil =>
    rw [Option.some.inj h, nil_append, append_nil]
  | cons c seg ih =>
    obtain ⟨mid, hstep, hrun⟩ := Option.bind_eq_some_iff.mp h
    obtain ⟨hgood, rfl⟩ := guardStep_eq_some hstep
    have hcomma : ¬(st = .outside ∧ c = ',') := by
      rintro ⟨hst, hc⟩
      have := hgood hst
      rw [hc] at this
      exact absurd this (by decide)
    rw [cons_append, splitLoop, if_neg hcomma, ih hrun, append_assoc, singleton_append]

lemma isComma_of_isAlnum {c : Char} (h : isAlnum c = true) : isComma c = false := by
  by_contra hcomma
  rw [Bool.not_eq_false, isComma, beq_iff_eq] at hcomma
  rw [hcomma] at h
  exact absurd h (by decide)

lemma splitLoop_matchersText (h : ∀ m ∈ ms, IsLabel m.name) (hne : ms ≠ []) :
    splitLoop .outside [] (matchersText isPrint ms) = .ok (ms.map (Matcher.text isPrint)) := by
  induction ms with
  | nil => exact absurd rfl hne
  | cons m ms ih =>
    have hm := h m mem_cons_self
    have hclosed : Closed isComma (m.text isPrint) :=
      closed_matcherText isPrint hm (fun c => isComma_of_isAlnum) (eq_false_of_all (by decide))
    by_cases hms : ms = []
    · subst hms
      have hsplit : splitLoop .outside [] (m.text isPrint ++ []) =
          splitLoop .outside ([] ++ m.text isPrint) [] := splitLoop_append hclosed
      obtain ⟨⟨c, t, htext, _⟩, _⟩ := text_ends isPrint hm
      have hne : m.text isPrint ≠ [] := by rw [htext]; simp
      rw [append_nil, nil_append] at hsplit
      rw [matchersText_singleton, hsplit, splitLoop]
      simp [trim_text hm, hne]
    · have hrest := ih (fun m' hm' => h m' (mem_cons_of_mem _ hm')) hms
      rw [matchersText_cons isPrint m hms, splitLoop_append hclosed, splitLoop,
        if_pos ⟨rfl, rfl⟩, hrest, nil_append, trim_text hm]
      rfl

lemma splitMatchers_matchersText (h : ∀ m ∈ ms, IsLabel m.name) :
    splitMatchers (matchersText isPrint ms) = .ok (ms.map (Matcher.text isPrint)) := by
  by_cases hne : ms = []
  · subst hne
    rfl
  · have htext : matchersText isPrint ms ≠ [] := fun hnil => hne ((matchersText_eq_nil h).mp hnil)
    rw [splitMatchers, trim_matchersText h]
    simp only [if_neg htext]
    exact splitLoop_matchersText h hne

/-! ## Matchers of the identity -/

lemma opText_head (o : MatchOp) : ∃ c t, o.text = c :: t ∧ (c = '=' ∨ c = '!') := by
  cases o
  · exact ⟨'=', [], rfl, .inl rfl⟩
  · exact ⟨'!', ['='], rfl, .inr rfl⟩
  · exact ⟨'=', ['~'], rfl, .inl rfl⟩
  · exact ⟨'!', ['~'], rfl, .inr rfl⟩

lemma isAlnum_of_identityKey (h : isIdentityKey key = true) : ∀ c ∈ key, isAlnum c = true := by
  rw [isIdentityKey, Bool.or_eq_true, beq_iff_eq, beq_iff_eq] at h
  rcases h with rfl | rfl <;> exact all_eq_true.mp (by decide)

lemma not_isAlnum_of_op {c : Char} (h : c = '=' ∨ c = '!') : isAlnum c = false := by
  rcases h with rfl | rfl <;> decide

lemma before_eq_name {c : Char} {cand before behind t : List Char} (hm : IsLabel m.name)
    (htext : m.text isPrint = before ++ (cand ++ behind)) (hcand : cand = c :: t)
    (hc : c = '=' ∨ c = '!') (hkey : isIdentityKey (Go.trimSpaceBytes before) = true) :
    before = m.name := by
  obtain ⟨o, u, ho, hop⟩ := opText_head m.op
  have hprefix : m.name ++ (o :: (u ++ Go.quote isPrint m.value)) = before ++ (c :: (t ++ behind)) := by
    rw [Matcher.text, ho, hcand] at htext
    exact htext
  rcases append_eq_append_iff.mp hprefix with ⟨x, hbefore, hx⟩ | ⟨x, hname, hx⟩
  · -- the cut is behind the label: then the key would hold the operator
    cases x with
    | nil => rw [hbefore, append_nil]
    | cons d x =>
      have hd : d = o := (List.cons.inj hx).1.symm
      have hmem : o ∈ before := by rw [hbefore, hd]; simp
      obtain ⟨pre, post, htrim, hpre, hpost⟩ := Go.trimSpaceBytes_eq before
      have hspace : Go.isSpaceByte o = false := by rcases hop with rfl | rfl <;> decide
      rw [htrim, mem_append, mem_append] at hmem
      rcases hmem with (hmem | hmem) | hmem
      · rw [hpre o hmem] at hspace
        exact absurd hspace (by decide)
      · have halnum := isAlnum_of_identityKey hkey o hmem
        rw [not_isAlnum_of_op hop] at halnum
        exact absurd halnum (by decide)
      · rw [hpost o hmem] at hspace
        exact absurd hspace (by decide)
  · -- the cut is inside of the label, which holds no operator
    cases x with
    | nil => rw [hname, append_nil]
    | cons d x =>
      have hd : d = c := (List.cons.inj hx).1.symm
      have halnum := hm.chars c (by rw [hname, hd]; simp)
      rw [not_isAlnum_of_op hc] at halnum
      exact absurd halnum (by decide)

lemma parseMatcherWith_eq_some {s cand op val : List Char}
    (h : parseMatcherWith s cand = some (key, op, val)) :
    ∃ before behind, s = before ++ (cand ++ behind) ∧ key = Go.trimSpaceBytes before ∧ op = cand := by
  rw [parseMatcherWith] at h
  split at h
  · rename_i c before behind hcut
    simp only [Option.some.injEq, Prod.mk.injEq] at h
    exact ⟨c :: before, behind, Go.cutAt_eq_some hcut, h.1.symm, h.2.1.symm⟩
  · cases h

lemma parseMatcherWith_re (isPrint : ℕ → Bool) (hm : IsLabel m.name) (hop : m.op = .re) :
    ∃ key val, parseMatcherWith (m.text isPrint) "=~".toList = some (key, "=~".toList, val) := by
  have htext : m.text isPrint = m.name ++ ("=~".toList ++ Go.quote isPrint m.value) := by
    rw [Matcher.text, hop]
    rfl
  have hsome := Go.cutAt_isSome "=~".toList m.name (Go.quote isPrint m.value)
  rw [← htext] at hsome
  obtain ⟨⟨before, behind⟩, hcut⟩ := Option.isSome_iff_exists.mp hsome
  obtain ⟨c, t, hname, hc⟩ := hm.exists_cons
  cases before with
  | nil =>
    -- the label does not start with the operator
    have heq := Go.cutAt_eq_some hcut
    rw [htext, hname] at heq
    have hhead : c = '=' := (List.cons.inj heq).1
    rw [hhead] at hc
    exact absurd hc (by decide)
  | cons d before =>
    refine ⟨Go.trimSpaceBytes (d :: before), unquoteProm (Go.trimSpaceBytes behind), ?_⟩
    rw [parseMatcherWith, hcut]

lemma op_of_prefix {o : MatchOp} {cand behind s : List Char} (hmem : cand ∈ matchOperators)
    (h : o.text ++ '"' :: s = cand ++ behind) (hre : o = .re → cand = "=~".toList) :
    cand = o.text := by
  simp only [matchOperators, mem_cons, not_mem_nil, or_false] at hmem
  cases o with
  | re => exact hre rfl
  | eq | ne | nre =>
    rcases hmem with rfl | rfl | rfl | rfl <;> first | rfl | simp [MatchOp.text] at h

lemma trim_label {w : List Char} (h : IsLabel w) : Go.trimSpaceBytes w = w := by
  refine Go.trimSpaceBytes_eq_self ?_ ?_
  · intro c t hw
    exact isSpaceByte_of_isAlnum (h.chars c (hw ▸ mem_cons_self))
  · intro t c hw
    exact isSpaceByte_of_isAlnum (h.chars c (by rw [hw]; simp))

lemma parseMatcher_text {op val : List Char} (hm : IsLabel m.name)
    (h : parseMatcher (m.text isPrint) = some (key, op, val)) (hkey : isIdentityKey key = true) :
    m.name = key ∧ op = m.op.text := by
  rw [parseMatcher, trim_text hm] at h
  split at h
  · rename_i key' op' val' hfind
    split_ifs at h
    simp only [Option.some.injEq, Prod.mk.injEq] at h
    obtain ⟨rfl, rfl, rfl⟩ := h
    obtain ⟨cand, hmem, hparse⟩ := exists_of_findSome?_eq_some hfind
    obtain ⟨before, behind, htext, hbefore, rfl⟩ := parseMatcherWith_eq_some hparse
    have hhead : ∃ c t, op' = c :: t ∧ (c = '=' ∨ c = '!') := by
      simp only [matchOperators, mem_cons, not_mem_nil, or_false] at hmem
      rcases hmem with rfl | rfl | rfl | rfl
      · exact ⟨'=', ['~'], rfl, .inl rfl⟩
      · exact ⟨'!', ['~'], rfl, .inr rfl⟩
      · exact ⟨'!', ['='], rfl, .inr rfl⟩
      · exact ⟨'=', [], rfl, .inl rfl⟩
    obtain ⟨c, t, hcand, hc⟩ := hhead
    rw [hbefore] at hkey
    have hname : before = m.name := before_eq_name hm htext hcand hc hkey
    have hre : m.op = .re → op' = "=~".toList := by
      intro hop
      obtain ⟨key, val, hfirst⟩ := parseMatcherWith_re isPrint hm hop
      rw [matchOperators, findSome?_cons, hfirst] at hfind
      simp only [Option.some.injEq, Prod.mk.injEq] at hfind
      exact hfind.2.1.symm
    rw [hname, Matcher.text] at htext
    exact ⟨by rw [hbefore, hname, trim_label hm],
      op_of_prefix hmem (append_cancel_left htext) hre⟩
  · cases h

/-- The matchers of a selector that the rewriter does not strip. -/
def keptMatchers (isPrint : ℕ → Bool) (ms : List Matcher) : List Matcher :=
  ms.filter fun m => keepMatcher (m.text isPrint)

lemma stripIdentityMatchers_matchersText (h : ∀ m ∈ ms, IsLabel m.name) :
    stripIdentityMatchers (matchersText isPrint ms)
      = matchersText isPrint (keptMatchers isPrint ms) := by
  rw [stripIdentityMatchers, splitMatchers_matchersText h, matchersText, keptMatchers]
  simp only [filter_map]
  rfl

lemma keepMatcher_of_name (hm : IsLabel m.name) (hname : isIdentityKey m.name = false) :
    keepMatcher (m.text isPrint) = true := by
  rw [keepMatcher]
  split
  · rename_i key op val hparse
    by_contra hkey
    rw [Bool.not_eq_true, Bool.not_eq_false'] at hkey
    rw [(parseMatcher_text hm hparse hkey).1, hkey] at hname
    exact absurd hname (by decide)
  · rfl

lemma stripped_of_extract {r : List Char × List Char} (h : ∀ m ∈ ms, IsLabel m.name)
    (hok : (ms.map (Matcher.text isPrint)).foldlM extractStep found = .ok r) (hm : m ∈ ms)
    (hstrip : keepMatcher (m.text isPrint) = false) : isIdentityKey m.name = true ∧ m.op = .eq := by
  induction ms generalizing found with
  | nil => exact absurd hm not_mem_nil
  | cons m' ms ih =>
    rw [map_cons, foldlM_cons, bind_eq_ok] at hok
    obtain ⟨found', hstep, hrest⟩ := hok
    rcases mem_cons.mp hm with rfl | hmem
    · rw [keepMatcher] at hstrip
      rw [extractStep] at hstep
      split at hstrip
      · rename_i key op val hparse
        rw [Bool.not_eq_false'] at hstrip
        obtain ⟨hname, hop⟩ := parseMatcher_text (h m mem_cons_self) hparse hstrip
        rw [hparse] at hstep
        simp only [hstrip, if_true] at hstep
        split_ifs at hstep with hne
        all_goals
          rw [Decidable.not_not] at hne
          refine ⟨by rw [hname]; exact hstrip, ?_⟩
          rw [hop] at hne
          revert hne
          cases m.op <;> decide
      · exact absurd hstrip (by decide)
    · exact ih (fun m' hm' => h m' (mem_cons_of_mem _ hm')) hrest hmem

lemma extractStep_of_name (hm : IsLabel m.name) (hname : isIdentityKey m.name = false) :
    extractStep found (m.text isPrint) = .ok found := by
  rw [extractStep]
  split
  · rfl
  · rename_i key op val hparse
    have hkey : isIdentityKey key = false := by
      by_contra hkey
      rw [Bool.not_eq_false] at hkey
      rw [(parseMatcher_text hm hparse hkey).1, hkey] at hname
      exact absurd hname (by decide)
    have hne := hkey
    rw [isIdentityKey, Bool.or_eq_false_iff, beq_eq_false_iff_ne, beq_eq_false_iff_ne] at hne
    simp only [hkey, Bool.false_eq_true, if_false, if_neg hne.1, if_neg hne.2, ite_self]

lemma rejectForeignIdentity_matchersText {ids : List WAFIdentity} (h : ∀ m ∈ ms, IsLabel m.name)
    (hfree : ∀ m ∈ ms, isIdentityKey m.name = false) :
    rejectForeignIdentity (matchersText isPrint ms) ids = .ok () := by
  have hfold : (ms.map (Matcher.text isPrint)).foldlM extractStep ([], []) = .ok ([], []) := by
    clear ids
    induction ms with
    | nil => rfl
    | cons m ms ih =>
      rw [map_cons, foldlM_cons, extractStep_of_name (h m mem_cons_self) (hfree m mem_cons_self)]
      exact ih (fun m' hm' => h m' (mem_cons_of_mem _ hm'))
        fun m' hm' => hfree m' (mem_cons_of_mem _ hm')
  rw [rejectForeignIdentity, extractIdentityMatchers, splitMatchers_matchersText h]
  exact bind_eq_ok.mpr ⟨([], []), hfold, rfl⟩

lemma keptMatchers_eq_self (h : ∀ m ∈ ms, IsLabel m.name)
    (hfree : ∀ m ∈ ms, isIdentityKey m.name = false) : keptMatchers isPrint ms = ms := by
  rw [keptMatchers, filter_eq_self]
  intro m hm
  exact keepMatcher_of_name (h m hm) (hfree m hm)

/-! ## Selectors that are written -/

/-- The matchers of an identity. -/
def WAFIdentity.matchers (id : WAFIdentity) : List Matcher :=
  [⟨"waf_namespace".toList, .eq, id.ns⟩, ⟨"waf_name".toList, .eq, id.name⟩]

lemma isLabel_namespace : IsLabel "waf_namespace".toList :=
  ⟨all_eq_true.mp (by decide), headNot_cons (by decide), by decide⟩

lemma isLabel_name : IsLabel "waf_name".toList :=
  ⟨all_eq_true.mp (by decide), headNot_cons (by decide), by decide⟩

lemma isLabel_matchers (id : WAFIdentity) :
    ∀ m ∈ id.matchers, IsLabel m.name := by
  intro m hm
  simp only [WAFIdentity.matchers, mem_cons, not_mem_nil, or_false] at hm
  rcases hm with rfl | rfl
  · exact isLabel_namespace
  · exact isLabel_name

lemma identityScope_eq (isPrint : ℕ → Bool) (id : WAFIdentity) :
    identityScope isPrint id = matchersText isPrint id.matchers := by
  have hnamespace : "waf_namespace=".toList = "waf_namespace".toList ++ ['='] := by decide
  have hname : ",waf_name=".toList = ',' :: ("waf_name".toList ++ ['=']) := by decide
  have hprinted : matchersText isPrint id.matchers
      = Matcher.text isPrint ⟨"waf_namespace".toList, .eq, id.ns⟩
        ++ ',' :: Matcher.text isPrint ⟨"waf_name".toList, .eq, id.name⟩ := by
    rw [WAFIdentity.matchers, matchersText_cons isPrint _ (cons_ne_nil _ _), matchersText_singleton]
  change "waf_namespace=".toList ++ Go.quote isPrint id.ns ++ ",waf_name=".toList
    ++ Go.quote isPrint id.name = _
  simp [hnamespace, hname, hprinted, Matcher.text, MatchOp.text]

lemma selectorBody_matchersText (id : WAFIdentity) (h : ∀ m ∈ ms, IsLabel m.name) :
    selectorBody isPrint id (matchersText isPrint ms)
      = matchersText isPrint (id.matchers ++ ms) := by
  have hscope := identityScope_eq isPrint id
  rw [selectorBody, trim_matchersText h]
  by_cases hne : ms = []
  · rw [if_pos ((matchersText_eq_nil h).mpr hne), hscope, hne, append_nil]
  · rw [if_neg fun hnil => hne ((matchersText_eq_nil h).mp hnil), hscope, WAFIdentity.matchers,
      cons_append, cons_append, nil_append,
      matchersText_cons isPrint _ (by simp), matchersText_singleton,
      matchersText_cons isPrint _ (cons_ne_nil _ _), matchersText_cons isPrint _ hne,
      append_assoc, cons_append]

lemma scopedBraces_matchersText (id : WAFIdentity) (h : ∀ m ∈ ms, IsLabel m.name)
    (rangeStr : List Char) :
    scopedBraces isPrint id (matchersText isPrint ms) rangeStr
      = bracesText isPrint (id.matchers ++ ms) ++ rangeStr := by
  rw [scopedBraces, selectorBody_matchersText id h, bracesText, cons_append,
    append_assoc, singleton_append]

lemma isClosingBrace_of_isAlnum {c : Char} (h : isAlnum c = true) : isClosingBrace c = false := by
  have hstop := isBraceStop_of_isAlnum h
  rw [isBraceStop, Bool.or_eq_false_iff] at hstop
  exact hstop.2

lemma readSelector_bracesText (h : ∀ m ∈ ms, IsLabel m.name) (s : List Char) :
    readSelector (bracesText isPrint ms ++ s) = .ok (bracesText isPrint ms, s) := by
  have hclosed : Closed isClosingBrace (matchersText isPrint ms) :=
    closed_matchersText isPrint h (fun c => isClosingBrace_of_isAlnum)
      (eq_false_of_all (by decide)) (by decide)
  have hscan : scanUntil (guardStep isClosingBrace) .outside (matchersText isPrint ms ++ '\x7d' :: s)
      = some (matchersText isPrint ms ++ ['\x7d'], s) := scanUntil_of_body hclosed (by decide)
  rw [bracesText, cons_append, append_assoc, singleton_append, readSelector,
    if_neg (by decide), hscan]

lemma selectorInner_bracesText (h : ∀ m ∈ ms, IsLabel m.name) :
    selectorInner (bracesText isPrint ms) = matchersText isPrint ms := by
  rw [bracesText, selectorInner_eq, trim_matchersText h]

lemma scopedSelectorParts_matchersText {ids : List WAFIdentity} {parts : List (List Char)}
    {metric after : List Char} (h : ∀ m ∈ ms, IsLabel m.name)
    (hok : scopedSelectorParts isPrint ids metric (matchersText isPrint ms) afterSel
      = .ok (parts, after)) :
    ∃ rangeStr, readRange afterSel = .ok (rangeStr, after) ∧
      parts = ids.map fun id =>
        metric ++ (bracesText isPrint (id.matchers ++ keptMatchers isPrint ms)
          ++ rangeStr) := by
  have hkept : ∀ m ∈ keptMatchers isPrint ms, IsLabel m.name :=
    fun m hm => h m (mem_of_mem_filter hm)
  obtain ⟨rangeStr, hrange, hparts⟩ := scopedSelectorParts_eq_ok hok
  refine ⟨rangeStr, hrange, ?_⟩
  rw [hparts, stripIdentityMatchers_matchersText h]
  simp [scopedBraces_matchersText _ hkept]

lemma stripped_of_scopedSelectorParts {ids : List WAFIdentity} {metric : List Char}
    {r : List (List Char) × List Char} (h : ∀ m ∈ ms, IsLabel m.name)
    (hok : scopedSelectorParts isPrint ids metric (matchersText isPrint ms) afterSel = .ok r)
    (hm : m ∈ ms) (hstrip : keepMatcher (m.text isPrint) = false) :
    isIdentityKey m.name = true ∧ m.op = .eq := by
  obtain ⟨_, hreject, _⟩ := bind_eq_ok.mp hok
  obtain ⟨found, hextract, _⟩ := bind_eq_ok.mp hreject
  rw [extractIdentityMatchers, splitMatchers_matchersText h] at hextract
  exact stripped_of_extract h hextract hm hstrip

/-! ## Names -/

section
variable {c : Char} {w s t after : List Char}

lemma isIdentStart_of_charKind (h : charKind c = .alpha) : isIdentStart c = true :=
  of_charKind (by decide) (by decide) h

lemma identAt_name (hw : IsName (c :: t)) (hs : HeadNot isIdentCont s) :
    IdentAt c (t ++ s) (c :: t) s := by
  obtain ⟨d, u, heq, hkind⟩ := hw.exists_cons
  obtain ⟨rfl, rfl⟩ := List.cons.inj heq
  have hstart := isIdentStart_of_charKind hkind
  have hchars : ∀ d ∈ t, isIdentCont d = true := fun d hd =>
    isIdentCont_of_isWordChar (hw.chars d (mem_cons_of_mem _ hd))
  refine ⟨hstart, ?_⟩
  rw [readIdent, if_pos hstart, takeWhile_append_of_pos hchars, takeWhile_eq_nil hs,
    append_nil, dropWhile_append_of_pos hchars, dropWhile_eq_self hs]

/-- The branch that the loop takes at a name. -/
def nameBranch (ident next : List Char) : Branch :=
  if toLower ident ∈ promqlKeywords then .keyword ident next
  else if startsWith '(' (skipSpace next) then .call ident next (skipSpace next)
  else if toLower ident ∈ promqlAggregators ∧ isAggModifier (skipSpace next) then
    .aggregator ident next
  else if startsWith '\x7b' (skipSpace next) then .metricSelector ident (skipSpace next)
  else .metric ident next

lemma ne_of_isIdentStart {d : Char} (h : isIdentStart c = true)
    (hd : isIdentStart d = false) : c ≠ d := by
  intro heq
  rw [heq, hd] at h
  exact absurd h (by decide)

lemma branch_identAt (h : IdentAt c s w after) : branch c s = nameBranch w after := by
  have hquote : isQuote c = false := by
    rw [isQuote, Bool.or_eq_false_iff, beq_eq_false_iff_ne, beq_eq_false_iff_ne]
    exact ⟨ne_of_isIdentStart h.start (by decide), ne_of_isIdentStart h.start (by decide)⟩
  have hpoint : (c == '.') = false :=
    beq_eq_false_iff_ne.mpr (ne_of_isIdentStart h.start (by decide))
  have hnumber : isNumberStart (c :: s) = false := by
    rw [isNumberStart, isDigit_eq, isDigit_of_isIdentStart h.start, hpoint]
    rfl
  have hbracket : c ≠ '[' := ne_of_isIdentStart h.start (by decide)
  have hbrace : c ≠ '\x7b' := ne_of_isIdentStart h.start (by decide)
  simp [branch, hquote, hnumber, if_neg hbracket, if_neg hbrace, if_pos h.start, h.read, nameBranch]

lemma branch_name (hw : IsName (c :: t)) (hs : HeadNot isIdentCont s) :
    branch c (t ++ s) = nameBranch (c :: t) s := branch_identAt (identAt_name hw hs)

lemma nameBranch_braces (hplain : toLower w ∉ promqlKeywords) (h : skipSpace s = '\x7b' :: t) :
    nameBranch w s = .metricSelector w ('\x7b' :: t) := by
  have hagg : ¬(toLower w ∈ promqlAggregators ∧ isAggModifier ('\x7b' :: t) = true) := by
    intro hmod
    exact absurd hmod.2 (by simp [isAggModifier, readIdent, toLower, isIdentStart, Go.isLetter])
  have hparen : ¬startsWith '(' ('\x7b' :: t) = true := by simp [startsWith]
  have hbrace : startsWith '\x7b' ('\x7b' :: t) = true := rfl
  rw [nameBranch, if_neg hplain, h, if_neg hparen, if_neg hagg, if_pos hbrace]

lemma nameBranch_metric (hplain : toLower w ∉ promqlKeywords) (h : ¬Opens (skipSpace s)) :
    nameBranch w s = .metric w s := by
  have hbrace : ¬startsWith '\x7b' (skipSpace s) = true := fun hs => h (.inl hs)
  have hagg : ¬isAggModifier (skipSpace s) = true := fun hs => h (.inr hs)
  have hparen : ¬startsWith '(' (skipSpace s) = true := by
    intro hs
    obtain ⟨u, hu⟩ := startsWith_iff.mp hs
    exact hagg (by rw [hu]; rfl)
  rw [nameBranch, if_neg hplain, if_neg hparen, if_neg fun hmod => hagg hmod.2, if_neg hbrace]

end

end KubeWaf.Subresource
