import KubeWaf.Subresource.PromqlScope
import KubeWaf.Lib.Promql.Printing

/-!
# The selectors that scoping writes

A selector that the rewriter emits starts its matchers with the identity of a WAF. What the query
had between its braces stands behind that, with its string literals closed, so it cannot end the
braces before the one that the rewriter writes.
-/

namespace KubeWaf.Subresource

open Lib Lib.Promql List

variable {id : WAFIdentity} {ms : List Matcher} {inner sel after t afterSel : List Char}
  {parts : List (List Char)} {c : Char}

/-- The matchers of a selector fix the namespace and the name of the WAF. -/
def Carries (id : WAFIdentity) (ms : List Matcher) : Prop :=
  ⟨"waf_namespace".toList, .eq, id.ns⟩ ∈ ms ∧ ⟨"waf_name".toList, .eq, id.name⟩ ∈ ms

def InScope (ids : List WAFIdentity) (ms : List Matcher) : Prop := ∃ id ∈ ids, Carries id ms

/-- What cannot stand between braces outside of string literals without ending them or hiding
something. -/
def isBraceEnd (c : Char) : Bool := isStray c || isClosingBrace c

section
variable {isPrint : ℕ → Bool} {s body : List Char} {n : ℕ} {items : List Item}

/-! ## The identity is read back -/

lemma lexItems_step {rest : List Char} {out : List Item} (hone : lexItem t = some (out, rest))
    (h : lexItems n t = some items) :
    ∃ m items', items = out ++ items' ∧ lexItems m rest = some items' := by
  cases t with
  | nil => exact absurd hone (by simp [lexItem])
  | cons c t =>
    cases n with
    | zero => exact absurd h (by simp [lexItems])
    | succ n =>
      rw [lexItems, hone] at h
      · simp only [Option.map_eq_some_iff] at h
        obtain ⟨items', hrest, rfl⟩ := h
        exact ⟨n, items', rfl, hrest⟩
      · simp

lemma lexItem_namespace (s : List Char) :
    lexItem ("waf_namespace=".toList ++ s) = some ([.word "waf_namespace".toList], '=' :: s) := rfl

lemma lexItem_name (s : List Char) :
    lexItem ("waf_name=".toList ++ s) = some ([.word "waf_name".toList], '=' :: s) := rfl

lemma lexItems_identityScope (h : lexItems n (identityScope isPrint id ++ s) = some items) :
    ∃ items', items = .word "waf_namespace".toList :: .op .eq :: .str id.ns :: .comma ::
      .word "waf_name".toList :: .op .eq :: .str id.name :: items' := by
  have hquote := exists_quote isPrint
  change lexItems n ("waf_namespace=".toList ++ Go.quote isPrint id.ns ++ ",waf_name=".toList ++
    Go.quote isPrint id.name ++ s) = some items at h
  rw [append_assoc, append_assoc, append_assoc] at h
  obtain ⟨n₁, items₁, rfl, h₁⟩ := lexItems_step (lexItem_namespace _) h
  obtain ⟨t, ht⟩ := hquote id.ns
    (",waf_name=".toList ++ (Go.quote isPrint id.name ++ s))
  have heq : lexItem ('=' :: '"' :: t) = some ([.op .eq], '"' :: t) := rfl
  rw [ht] at h₁
  obtain ⟨n₂, items₂, rfl, h₂⟩ := lexItems_step heq h₁
  have hstr := lexItem_quote isPrint id.ns (",waf_name=".toList ++ (Go.quote isPrint id.name ++ s))
  rw [ht] at hstr
  obtain ⟨n₃, items₃, rfl, h₃⟩ := lexItems_step hstr h₂
  have hcomma : lexItem (",waf_name=".toList ++ (Go.quote isPrint id.name ++ s)) =
      some ([.comma], "waf_name=".toList ++ (Go.quote isPrint id.name ++ s)) := rfl
  obtain ⟨n₄, items₄, rfl, h₄⟩ := lexItems_step hcomma h₃
  obtain ⟨n₅, items₅, rfl, h₅⟩ := lexItems_step (lexItem_name _) h₄
  obtain ⟨t', ht'⟩ := hquote id.name s
  have heq' : lexItem ('=' :: '"' :: t') = some ([.op .eq], '"' :: t') := rfl
  rw [ht'] at h₅
  obtain ⟨n₆, items₆, rfl, h₆⟩ := lexItems_step heq' h₅
  have hstr' := lexItem_quote isPrint id.name s
  rw [ht'] at hstr'
  obtain ⟨n₇, items₇, rfl, h₇⟩ := lexItems_step hstr' h₆
  exact ⟨items₇, rfl⟩

lemma mem_of_parseMatchers {k v : List Char} {o : MatchOp}
    (h : parseMatchers (.word k :: .op o :: .str v :: items) = some ms) : ⟨k, o, v⟩ ∈ ms := by
  cases items with
  | nil =>
    rw [parseMatchers] at h
    cases h
    exact mem_cons_self
  | cons item items =>
    cases item with
    | comma =>
      obtain ⟨rest, _, rfl⟩ := Option.map_eq_some_iff.mp h
      exact mem_cons_self
    | word w | str v | op o => exact absurd h (by simp [parseMatchers])

lemma carries_of_parseMatchers
    (h : parseMatchers (.word "waf_namespace".toList :: .op .eq :: .str id.ns :: .comma ::
      .word "waf_name".toList :: .op .eq :: .str id.name :: items) = some ms) : Carries id ms := by
  obtain ⟨rest, hrest, rfl⟩ := Option.map_eq_some_iff.mp h
  exact ⟨mem_cons_self, mem_cons_of_mem _ (mem_of_parseMatchers hrest)⟩

/-! ## The braces end where they should -/

lemma closed_identityScope (isPrint : ℕ → Bool) (id : WAFIdentity) :
    Closed isBraceEnd (identityScope isPrint id) := by
  have hquote : ∀ v, Closed isBraceEnd (Go.quote isPrint v) := closed_quote isPrint (by decide)
  have hnamespace : Closed isBraceEnd "waf_namespace=".toList := by decide
  have hname : Closed isBraceEnd ",waf_name=".toList := by decide
  exact ((hnamespace.append (hquote id.ns)).append hname).append (hquote id.name)

/-- The text between the braces of an emitted selector. -/
def selectorBody (isPrint : ℕ → Bool) (id : WAFIdentity) (inner : List Char) : List Char :=
  if Go.trimSpaceBytes inner = [] then identityScope isPrint id
  else identityScope isPrint id ++ ',' :: Go.trimSpaceBytes inner

lemma lexBraces_selectorBody {rest : List Char}
    (hinner : Closed isBraceEnd (Go.trimSpaceBytes inner))
    (h : lexBraces (selectorBody isPrint id inner ++ '\x7d' :: s) = some (ms, rest)) :
    rest = s ∧ Carries id ms := by
  obtain ⟨tail, hbody, hclosed⟩ : ∃ tail,
      selectorBody isPrint id inner = identityScope isPrint id ++ tail ∧
        Closed isBraceEnd (identityScope isPrint id ++ tail) := by
    rw [selectorBody]
    split_ifs
    · refine ⟨[], by rw [append_nil], ?_⟩
      rw [append_nil]
      exact closed_identityScope isPrint id
    · refine ⟨_, rfl, (closed_identityScope isPrint id).append ?_⟩
      have hcomma : Closed isBraceEnd [','] := by decide
      exact hcomma.append hinner
  rw [hbody, lexBraces, scanUntil_braceStep hclosed] at h
  simp only [dropLast_concat, Option.map_eq_some_iff, Option.bind_eq_some_iff, Prod.mk.injEq] at h
  obtain ⟨ms', ⟨items, hitems, hparse⟩, rfl, rfl⟩ := h
  obtain ⟨items', rfl⟩ := lexItems_identityScope hitems
  exact ⟨rfl, carries_of_parseMatchers hparse⟩

end

/-! ## What the query had between its braces -/

section
variable {bad : Char → Bool} {s : List Char}

lemma isQuote_of_isSpaceByte (h : Go.isSpaceByte c = true) : isQuote c = false := by
  have hall : (Go.spaces.flatten.all fun d => !isQuote d) = true := by decide
  have hquote := all_eq_true.mp hall c (by simpa [Go.isSpaceByte] using h)
  simpa using hquote

lemma closed_trimSpaceBytes (h : Closed bad s) : Closed bad (Go.trimSpaceBytes s) := by
  obtain ⟨pre, post, hs, hpre, hpost⟩ := Go.trimSpaceBytes_eq s
  rw [hs, append_assoc] at h
  have hmid := h.of_append_left fun c hc => isQuote_of_isSpaceByte (hpre c hc)
  exact hmid.of_append_right fun c hc => isQuote_of_isSpaceByte (hpost c hc)

lemma closed_of_splitLoop {st : Quote} {cur : List Char}
    (hcur : runThrough (guardStep bad) .outside cur = some st)
    (hs : runThrough (guardStep bad) st s = some .outside) (h : splitLoop st cur s = .ok parts) :
    ∀ part ∈ parts, Closed bad part := by
  induction s generalizing st cur parts with
  | nil =>
    have hst : st = .outside := Option.some.inj hs
    rw [hst] at hcur
    rw [splitLoop, if_neg (by simp [hst])] at h
    simp only [Except.ok.injEq] at h
    intro part hpart
    rw [← h] at hpart
    split_ifs at hpart
    · rw [mem_singleton] at hpart
      rw [hpart]
      exact closed_trimSpaceBytes hcur
    · cases hpart
  | cons c s ih =>
    obtain ⟨mid, hstep, hrun⟩ := Option.bind_eq_some_iff.mp hs
    rw [splitLoop] at h
    by_cases hcut : st = .outside ∧ c = ','
    · rw [if_pos hcut] at h
      have hmid : mid = .outside := by
        rw [(guardStep_eq_some hstep).2, hcut.1, hcut.2]
        decide
      rw [hmid] at hrun
      rw [hcut.1] at hcur
      cases hrest : splitLoop .outside [] s with
      | error e =>
        rw [hrest] at h
        exact absurd h (by simp [Except.map])
      | ok parts' =>
        rw [hrest] at h
        simp only [Except.map, Except.ok.injEq] at h
        intro part hpart
        rw [← h, mem_cons] at hpart
        rcases hpart with rfl | hpart
        · exact closed_trimSpaceBytes hcur
        · exact ih rfl hrun hrest part hpart
    · rw [if_neg hcut] at h
      rw [(guardStep_eq_some hstep).2] at hrun hstep
      refine ih ?_ hrun h
      rw [runThrough_append, hcur, Option.bind_some, runThrough, hstep]
      rfl

lemma closed_join (hcomma : bad ',' = false) (h : ∀ part ∈ parts, Closed bad part) :
    Closed bad (Go.join [','] parts) := by
  have hsep : Closed bad [','] :=
    closed_of_plain (forall_mem_singleton.mpr rfl) (by simpa using hcomma)
  induction parts with
  | nil => exact closed_nil
  | cons part parts ih =>
    have hpart : Closed bad part := h part mem_cons_self
    have hrest := ih fun p hp => h p (mem_cons_of_mem _ hp)
    cases parts with
    | nil =>
      rw [Go.join, intercalate_singleton]
      exact hpart
    | cons next parts =>
      rw [Go.join, intercalate_cons_cons]
      exact (hpart.append hsep).append hrest

lemma closed_stripIdentityMatchers (hcomma : bad ',' = false) (h : Closed bad inner) :
    Closed bad (stripIdentityMatchers inner) := by
  rw [stripIdentityMatchers]
  cases hsplit : splitMatchers inner with
  | error e => exact h
  | ok parts =>
    have hparts : ∀ part ∈ parts, Closed bad part := by
      rw [splitMatchers] at hsplit
      split_ifs at hsplit
      · cases hsplit
        simp
      · exact closed_of_splitLoop rfl (closed_trimSpaceBytes h) hsplit
    exact closed_join hcomma fun part hpart => hparts part (mem_of_mem_filter hpart)

lemma readSelector_eq_ok {brace : List Char} (h : readSelector brace = .ok (sel, after)) :
    ∃ body, sel = '\x7b' :: (body ++ ['\x7d']) ∧ brace = sel ++ after ∧
      Closed isClosingBrace body := by
  unfold readSelector at h
  split at h
  · cases h
  · rename_i c s
    split_ifs at h with hc
    rw [ne_eq, not_not] at hc
    split at h
    · cases h
    · rename_i text rest hscan
      simp only [Except.ok.injEq, Prod.mk.injEq] at h
      obtain ⟨body, d, st, rfl, hs, hrun, hstop⟩ := scanUntil_eq_some hscan
      have hend : st = .outside ∧ d = '\x7d' := by
        rw [guardStep] at hstop
        split_ifs at hstop with hbad
        exact ⟨hbad.1, by simpa [isClosingBrace] using hbad.2⟩
      rw [hend.1] at hrun
      refine ⟨body, ?_, ?_, hrun⟩
      · rw [← h.1, hc, hend.2]
      · rw [← h.1, ← h.2, hs]
        rfl

lemma selectorInner_eq (body : List Char) :
    selectorInner ('\x7b' :: (body ++ ['\x7d'])) = Go.trimSpaceBytes body := by
  rw [selectorInner, ← cons_append, Go.trimSuffix_append, ← singleton_append, Go.trimPrefix_append]

lemma closed_selectorInner {brace : List Char} (h : readSelector brace = .ok (sel, after))
    (hstray : Closed isStray (selectorInner sel)) : Closed isBraceEnd (selectorInner sel) := by
  obtain ⟨body, rfl, _, hbody⟩ := readSelector_eq_ok h
  rw [selectorInner_eq] at hstray ⊢
  exact hstray.or (closed_trimSpaceBytes hbody)

end

/-! ## Ranges -/

section
variable {P : List Matcher → Prop} {b : Bool} {q rest text s : List Char}

lemma between_append (a rest : List Char) : between (a ++ rest) rest = a := by
  rw [between, length_append, Nat.add_sub_cancel, take_left]

lemma startsWith_iff : startsWith c q = true ↔ ∃ t, q = c :: t := by
  cases q with
  | nil => simp [startsWith]
  | cons d t => simp [startsWith]

lemma skipNested_eq_ok {opening closing : Char} {e u : String}
    (h : skipNested opening closing e u q = .ok (text, rest)) :
    startsWith opening q = true ∧
      scanUntil (nestedStep opening closing) (.outside, 0) q = some (text, rest) := by
  unfold skipNested at h
  split_ifs at h with hstart
  rw [Bool.not_eq_true', Bool.not_eq_false] at hstart
  refine ⟨hstart, ?_⟩
  split at h
  · cases h
  · rename_i r hscan
    rw [hscan, Except.ok.inj h]

lemma scanRange_nested {t₀ r x : List Char}
    (hscan : scanUntil (nestedStep '[' ']') (.outside, 1) t₀ = some (t, rest))
    (hclosed : Closed isStray t) (h : scanUntil rangeStep .code (t ++ s) = some (x, r)) :
    r = s := by
  induction t₀ generalizing t x with
  | nil => exact absurd hscan (by simp [scanUntil])
  | cons c t₀ ih =>
    have hnested : nestedStep '[' ']' (.outside, 1) c =
        if isQuote c then some (.inside c, 1)
        else if c = '[' then some (.outside, 2)
        else if c = ']' then none
        else some (.outside, 1) := by
      rw [nestedStep, if_pos rfl]
      rfl
    obtain ⟨t', ht, _⟩ := scanUntil_cons_eq_some hscan
    rw [ht] at hclosed h
    rw [cons_append] at h
    rcases scanRange_cons hclosed.head h with ⟨rfl, _, rfl⟩ | ⟨hend, hopen, hquote, _, y, _, hy⟩
    · have hstop : nestedStep '[' ']' (.outside, 1) ']' = none := by decide
      rw [scanUntil_cons_stop hstop, ht] at hscan
      simp only [Option.some.injEq, Prod.mk.injEq, List.cons.injEq, true_and] at hscan
      rw [← hscan.1, nil_append]
    · have hstep : nestedStep '[' ']' (.outside, 1) c = some (.outside, 1) := by
        rw [hnested, hquote, if_neg (by simp), if_neg hopen, if_neg hend]
      obtain ⟨t'', heq, hscan'⟩ := scanUntil_of_go hstep hscan
      rw [ht, List.cons.injEq] at heq
      rw [← heq.2] at hscan'
      exact ih hscan' (hclosed.of_append_left (a := [c]) (by simpa using hquote)) hy

lemma selects_bracket (h : skipBracket q = .ok (text, rest)) (hclosed : Closed isStray text)
    (hs : Selects P false s) : Selects P b (text ++ s) := by
  obtain ⟨hstart, hscan⟩ := skipNested_eq_ok h
  obtain ⟨t, rfl⟩ := startsWith_iff.mp hstart
  have hgo : nestedStep '[' ']' (.outside, 0) '[' = some (.outside, 1) := by decide
  obtain ⟨t', rfl, hscan'⟩ := scanUntil_of_go hgo hscan
  rw [cons_append]
  refine selects_range ?_ hs
  intro x r hr
  exact scanRange_nested hscan' (hclosed.of_append_left (a := ['[']) (forall_mem_singleton.mpr rfl)) hr

lemma isBlank_of_isSpace (h : isSpace c = true) : isBlank c = true := h

lemma exists_spaces (q : List Char) :
    ∃ x, q = x ++ skipSpace q ∧ ∀ c ∈ x, isBlank c = true := by
  refine ⟨q.takeWhile isSpace, (takeWhile_append_dropWhile).symm, ?_⟩
  intro c hc
  exact isBlank_of_isSpace (mem_takeWhile_imp hc)

lemma readRange_eq_ok (h : readRange q = .ok (text, rest)) :
    (text = [] ∧ rest = q) ∨
      ∃ x t, text = x ++ t ∧ (∀ c ∈ x, isBlank c = true) ∧
        skipBracket (skipSpace q) = .ok (t, rest) ∧ q = text ++ rest := by
  unfold readRange at h
  split_ifs at h with hstart
  · right
    obtain ⟨⟨t, rest'⟩, hskip, h⟩ := bind_eq_ok.mp h
    simp only [Except.ok.injEq, Prod.mk.injEq] at h
    obtain ⟨x, hx, hblank⟩ := exists_spaces q
    have hsplit : skipSpace q = t ++ rest' := scanUntil_append (skipNested_eq_ok hskip).2
    have hq : q = x ++ t ++ rest' := by
      rw [append_assoc, ← hsplit]
      exact hx
    have htext : text = x ++ t := by
      rw [← h.1]
      conv_lhs => rw [hq]
      exact between_append _ _
    rw [← h.2]
    exact ⟨x, t, htext, hblank, hskip, by rw [htext]; exact hq⟩
  · left
    simp only [Except.ok.injEq, Prod.mk.injEq] at h
    exact ⟨h.1.symm, h.2.symm⟩

lemma selects_rangeStr (h : readRange q = .ok (text, rest)) (hclosed : Closed isStray text)
    (hs : Selects P false s) : Selects P false (text ++ s) := by
  rcases readRange_eq_ok h with ⟨rfl, _⟩ | ⟨x, t, rfl, hx, hskip, _⟩
  · exact hs
  · rw [append_assoc]
    refine selects_blanks hx ?_
    refine selects_bracket hskip (hclosed.of_append_left ?_) hs
    intro c hc
    exact isQuote_of_charKind (by rw [isBlank_charKind (hx c hc)]; decide)

end

/-! ## Pieces -/

section
variable {isPrint : ℕ → Bool} {ids : List WAFIdentity} {P : List Matcher → Prop}

/-- A piece of a query behind which an operator is due, wherever it stands. -/
def Piece (P : List Matcher → Prop) (piece : List Char) : Prop :=
  ∀ b s, Selects P false s → Selects P b (piece ++ s)

/-- An identifier, in the sense of the rewriter. -/
structure IsIdent (w : List Char) : Prop where
  chars : ∀ c ∈ w, NameChar c
  digit : HeadNot isDigit w

lemma isIdent_nil : IsIdent [] where
  chars := by simp
  digit := headNot_nil _

lemma piece_metric {w : List Char} (hw : IsIdent w) (hpiece : Piece P ('\x7b' :: t)) :
    Piece P (w ++ '\x7b' :: t) := by
  intro b s hs
  rw [append_assoc]
  exact selects_metric hw.chars hw.digit ⟨t ++ s, rfl⟩ fun b' => hpiece b' s hs

lemma piece_call {w t : List Char} (hw : IsIdent w) (hkind : wordKind w = .plain)
    (hpiece : Piece P ('(' :: t)) : Piece P (w ++ '(' :: t) := by
  intro b s hs
  rw [append_assoc]
  exact selects_name hw.chars hw.digit (headNot_cons (by decide)) hkind (.inr noFollow_lparen)
    (hpiece b s hs)

/-- A selector that is emitted for one identity, without its metric. -/
def scopedBraces (isPrint : ℕ → Bool) (id : WAFIdentity) (inner rangeStr : List Char) :
    List Char :=
  '\x7b' :: (selectorBody isPrint id inner ++ '\x7d' :: rangeStr)

lemma piece_scopedBraces {rangeStr : List Char} (hid : id ∈ ids)
    (hinner : Closed isBraceEnd inner) (hrange : readRange afterSel = .ok (rangeStr, after))
    (hclosed : Closed isStray rangeStr) :
    Piece (InScope ids) (scopedBraces isPrint id inner rangeStr) := by
  intro b s hs
  have hrest : Selects (InScope ids) false (rangeStr ++ s) :=
    selects_rangeStr hrange hclosed hs
  have htext : scopedBraces isPrint id inner rangeStr ++ s =
      '\x7b' :: (selectorBody isPrint id inner ++ ['\x7d'] ++ (rangeStr ++ s)) := by
    simp [scopedBraces]
  rw [htext]
  refine selects_braces ?_ hrest
  intro ms rest hlex
  rw [append_assoc, singleton_append] at hlex
  obtain ⟨hr, hcarries⟩ := lexBraces_selectorBody (closed_trimSpaceBytes hinner) hlex
  exact ⟨hr, id, hid, hcarries⟩

lemma injectIdentity_eq_ok {metric : List Char}
    (h : injectIdentity isPrint metric inner id = .ok sel) (rangeStr : List Char) :
    sel ++ rangeStr = metric ++ scopedBraces isPrint id inner rangeStr := by
  unfold injectIdentity at h
  by_cases hid : id.ns = [] ∨ id.name = []
  · rw [if_pos hid] at h
    cases h
  · rw [if_neg hid] at h
    rw [← Except.ok.inj h, scopedBraces, selectorBody]
    simp

lemma scopedSelectorParts_eq_ok {metric : List Char}
    (h : scopedSelectorParts isPrint ids metric inner afterSel = .ok (parts, after)) :
    ∃ rangeStr, readRange afterSel = .ok (rangeStr, after) ∧
      parts = ids.map fun id =>
        metric ++ scopedBraces isPrint id (stripIdentityMatchers inner) rangeStr := by
  unfold scopedSelectorParts at h
  obtain ⟨_, _, h⟩ := bind_eq_ok.mp h
  simp only [bind_eq_ok] at h
  obtain ⟨⟨rangeStr, after'⟩, hrange, parts', hparts, heq⟩ := h
  simp only [Except.ok.injEq, Prod.mk.injEq] at heq
  obtain ⟨rfl, rfl⟩ := heq
  refine ⟨rangeStr, hrange, eq_map_of_mapM_eq_ok ?_ hparts⟩
  intro id part hpart
  obtain ⟨sel, hsel, heq⟩ := bind_eq_ok.mp hpart
  rw [← Except.ok.inj heq, ← injectIdentity_eq_ok hsel]

lemma selects_or {s : List Char} (hs : Selects P true s) :
    Selects P false (" or ".toList ++ s) := by
  have htext : " or ".toList ++ s = ' ' :: ("or".toList ++ ' ' :: s) := rfl
  have hafter : afterWord false "or".toList = true := by decide
  rw [htext]
  refine selects_blank (by decide) (selects_keyword ?_ ?_ (by decide) ?_ ?_ ?_ ?_)
  · intro c hc
    have hall : "or".toList.all isWordChar = true := by decide
    exact .inl (all_eq_true.mp hall c hc)
  · intro c t h
    have hor : "or".toList = ['o', 'r'] := rfl
    rw [hor, List.cons.injEq] at h
    rw [← h.1]
    decide
  · exact headNot_cons (by decide)
  · intro h
    exact absurd h (by decide)
  · intro h
    exact absurd h (by decide)
  · rw [hafter]
    exact selects_blank (by decide) hs

lemma selects_join {s : List Char} (h : ∀ part ∈ parts, Piece P part) (hne : parts ≠ [])
    (hs : Selects P false s) : Selects P true (Go.join " or ".toList parts ++ s) := by
  induction parts with
  | nil => exact absurd rfl hne
  | cons part parts ih =>
    have hpart : Piece P part := h part mem_cons_self
    cases parts with
    | nil =>
      rw [Go.join, intercalate_singleton]
      exact hpart true s hs
    | cons next parts =>
      have hrest := ih (fun p hp => h p (mem_cons_of_mem _ hp)) (by simp)
      rw [Go.join, intercalate_cons_cons, append_assoc, append_assoc]
      exact hpart true _ (selects_or hrest)

lemma piece_orUnion (h : ∀ part ∈ parts, Piece P part) : Piece P (orUnion parts) := by
  intro b s hs
  unfold orUnion
  split
  · exact h _ mem_cons_self b s hs
  · rw [cons_append, cons_append, append_assoc, singleton_append]
    refine selects_lparen ?_
    by_cases hne : parts = []
    · rw [hne]
      exact selects_rparen hs
    · exact selects_join h hne (selects_rparen hs)

end

end KubeWaf.Subresource
