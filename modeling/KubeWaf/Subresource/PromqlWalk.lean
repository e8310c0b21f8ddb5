import KubeWaf.Subresource.PromqlSelectors

/-!
# The walk of the rewriter

What one round of the rewriter can do, branch by branch. Each round reads at least one byte, so
the bound on the rounds is never reached, and what it writes starts with the byte at which it
stands or with a parenthesis.
-/

namespace KubeWaf.Subresource

open Lib Lib.Promql List

variable {metric inner piece next q text rest out : List Char}

/-! ## Identifiers -/

section
variable {c : Char} {s : List Char}

lemma isLetter_iff : Go.isLetter c = true ↔
    (65 ≤ c.toNat ∧ c.toNat ≤ 90) ∨ (97 ≤ c.toNat ∧ c.toNat ≤ 122) ∨ c.toNat = 170 ∨
      c.toNat = 181 ∨ c.toNat = 186 ∨ (192 ≤ c.toNat ∧ c.toNat ≤ 214) ∨
      (216 ≤ c.toNat ∧ c.toNat ≤ 246) ∨ (248 ≤ c.toNat ∧ c.toNat ≤ 255) := by
  simp [Go.isLetter, or_assoc]

lemma isIdentStart_iff : isIdentStart c = true ↔
    c.toNat = 95 ∨ c.toNat = 58 ∨ Go.isLetter c = true := by
  simp only [isIdentStart, Bool.or_eq_true, beq_iff_eq, Char.ext_iff, ← UInt32.toNat_inj, or_assoc]
  rfl

lemma isDigit_eq (c : Char) : Go.isDigit c = isDigit c := rfl

lemma nameChar_of_isIdentCont (h : isIdentCont c = true) : NameChar c := by
  rw [isIdentCont, Bool.or_eq_true, isIdentStart_iff, isLetter_iff, isDigit_eq, isDigit_iff] at h
  by_cases hsmall : c.toNat < 128
  · left
    by_cases hcolon : c.toNat = 58
    · have hc : c = ':' := (Go.ofNat_eq hcolon.symm).symm
      rw [hc]
      decide
    · rw [isWordChar, isAlnum, Bool.or_eq_true, Bool.or_eq_true, isAlpha_iff, isDigit_iff]
      left
      omega
  · right
    omega

lemma isIdentCont_of_isWordChar (h : isWordChar c = true) : isIdentCont c = true := by
  rw [isIdentCont, Bool.or_eq_true, isIdentStart_iff, isLetter_iff, isDigit_eq, isDigit_iff]
  rw [isWordChar, isAlnum, Bool.or_eq_true, Bool.or_eq_true, isAlpha_iff, isDigit_iff,
    beq_iff_eq] at h
  rcases h with (h | h) | h
  · omega
  · omega
  · left; right; left
    rw [h]
    rfl

lemma isDigit_of_isIdentStart (h : isIdentStart c = true) : isDigit c = false := by
  rw [isIdentStart_iff, isLetter_iff] at h
  rw [← Bool.not_eq_true, isDigit_iff]
  omega

lemma readIdent_spec (h : isIdentStart c = true) :
    c :: s = (readIdent (c :: s)).1 ++ (readIdent (c :: s)).2 ∧
      IsIdent (readIdent (c :: s)).1 ∧ HeadNot isIdentCont (readIdent (c :: s)).2 ∧
      ∃ t, (readIdent (c :: s)).1 = c :: t := by
  have hread : readIdent (c :: s) = (c :: s.takeWhile isIdentCont, s.dropWhile isIdentCont) := by
    rw [readIdent, if_pos h]
  rw [hread]
  refine ⟨?_, ⟨?_, headNot_cons (isDigit_of_isIdentStart h)⟩, headNot_dropWhile _ _, _, rfl⟩
  · rw [cons_append, takeWhile_append_dropWhile]
  · intro d hd
    rcases mem_cons.mp hd with rfl | hd
    · apply nameChar_of_isIdentCont
      rw [isIdentCont, h, Bool.true_or]
    · exact nameChar_of_isIdentCont (mem_takeWhile_imp hd)

lemma isIdent_readIdent (q : List Char) : IsIdent (readIdent q).1 := by
  cases q with
  | nil => exact isIdent_nil
  | cons c s =>
    by_cases h : isIdentStart c = true
    · exact (readIdent_spec h).2.1
    · have hread : readIdent (c :: s) = ([], c :: s) := by rw [readIdent, if_neg h]
      rw [hread]
      exact isIdent_nil

lemma wordKind_eq_plain_iff (w : List Char) :
    wordKind w = .plain ↔ toLower w ∉ promqlKeywords := by
  have hsame : ∀ k ∈ keywords, k.1 ∈ promqlKeywords := by decide
  have hsame' : ∀ k ∈ promqlKeywords, (keywords.lookup k).getD .plain ≠ .plain := by decide
  refine ⟨?_, ?_⟩
  · intro h hmem
    exact hsame' _ hmem h
  · intro h
    by_contra hkind
    obtain ⟨k, hk, hlower⟩ := exists_keyword hkind
    have hmem := hsame k hk
    rw [hlower] at hmem
    exact h hmem

lemma isGroupingKeyword_iff {w : List Char} (h : toLower w ∈ promqlKeywords) :
    isGroupingKeyword (toLower w) = takesLabels w := by
  have hall : ∀ k ∈ promqlKeywords, isGroupingKeyword k =
      decide ((keywords.lookup k).getD .plain ∈ [WordKind.groupBy, .matching, .group]) := by
    decide
  exact hall _ h

end

/-! ## The branches -/

/-- What the rewriter knows of a position when it takes a branch. -/
inductive Reads (c : Char) (s : List Char) : Branch → Prop
  | quoted : isQuote c = true → Reads c s .quoted
  | number : isNumberStart (c :: s) = true → Reads c s .number
  | bracket : c = '[' → Reads c s .bracket
  | selector : c = '\x7b' → Reads c s .selector
  | keyword : isIdentStart c = true → toLower (readIdent (c :: s)).1 ∈ promqlKeywords →
      Reads c s (.keyword (readIdent (c :: s)).1 (readIdent (c :: s)).2)
  | call : isIdentStart c = true → toLower (readIdent (c :: s)).1 ∉ promqlKeywords →
      startsWith '(' (skipSpace (readIdent (c :: s)).2) = true →
      Reads c s (.call (readIdent (c :: s)).1 (readIdent (c :: s)).2
        (skipSpace (readIdent (c :: s)).2))
  | aggregator : isIdentStart c = true → toLower (readIdent (c :: s)).1 ∉ promqlKeywords →
      isAggModifier (skipSpace (readIdent (c :: s)).2) = true →
      Reads c s (.aggregator (readIdent (c :: s)).1 (readIdent (c :: s)).2)
  | metricSelector : isIdentStart c = true → toLower (readIdent (c :: s)).1 ∉ promqlKeywords →
      startsWith '\x7b' (skipSpace (readIdent (c :: s)).2) = true →
      Reads c s (.metricSelector (readIdent (c :: s)).1 (skipSpace (readIdent (c :: s)).2))
  | metric : isIdentStart c = true → toLower (readIdent (c :: s)).1 ∉ promqlKeywords →
      Reads c s (.metric (readIdent (c :: s)).1 (readIdent (c :: s)).2)
  | byte : isQuote c = false → isNumberStart (c :: s) = false → c ≠ '[' → c ≠ '\x7b' →
      isIdentStart c = false → Reads c s (.byte c s)

lemma reads_branch (c : Char) (s : List Char) : Reads c s (branch c s) := by
  simp only [branch]
  split_ifs with hquote hnumber hbracket hbrace hident hkeyword hparen hagg hsel
  · exact .quoted hquote
  · exact .number hnumber
  · exact .bracket hbracket
  · exact .selector hbrace
  · exact .keyword hident hkeyword
  · exact .call hident hkeyword hparen
  · exact .aggregator hident hkeyword hagg.2
  · exact .metricSelector hident hkeyword hsel
  · exact .metric hident hkeyword
  · simp only [Bool.not_eq_true] at hquote hnumber hident
    exact .byte hquote hnumber hbracket hbrace hident

/-! ## What a round writes -/

section
variable {isPrint : ℕ → Bool} {ids : List WAFIdentity} {rangeStr : List Char}

/-- The selectors that are emitted for the identities. -/
def scopedParts (isPrint : ℕ → Bool) (ids : List WAFIdentity) (metric inner rangeStr : List Char) :
    List (List Char) :=
  ids.map fun id => metric ++ scopedBraces isPrint id (stripIdentityMatchers inner) rangeStr

lemma emitScopedSelectors_eq_ok {afterSel : List Char}
    (h : emitScopedSelectors isPrint ids metric inner afterSel = .ok (piece, next)) :
    ∃ rangeStr, readRange afterSel = .ok (rangeStr, next) ∧
      piece = orUnion (scopedParts isPrint ids metric inner rangeStr) := by
  unfold emitScopedSelectors at h
  obtain ⟨⟨parts, after⟩, hparts, heq⟩ := bind_eq_ok.mp h
  simp only [Except.ok.injEq, Prod.mk.injEq] at heq
  obtain ⟨rangeStr, hrange, hmap⟩ := scopedSelectorParts_eq_ok hparts
  rw [← heq.1, ← heq.2]
  exact ⟨rangeStr, hrange, by rw [hmap]; rfl⟩

lemma rewriteSelectorAt_eq_ok {brace : List Char}
    (h : rewriteSelectorAt isPrint ids metric brace = .ok (piece, next)) :
    ∃ sel after rangeStr, readSelector brace = .ok (sel, after) ∧
      readRange after = .ok (rangeStr, next) ∧
      piece = orUnion (scopedParts isPrint ids metric (selectorInner sel) rangeStr) := by
  unfold rewriteSelectorAt at h
  obtain ⟨⟨sel, after⟩, hsel, h⟩ := bind_eq_ok.mp h
  obtain ⟨rangeStr, hrange, hpiece⟩ := emitScopedSelectors_eq_ok h
  exact ⟨sel, after, rangeStr, hsel, hrange, hpiece⟩

/-- The calls of a range function that are emitted for the identities. -/
def scopedCalls (isPrint : ℕ → Bool) (ids : List WAFIdentity)
    (ident metric inner rangeStr extra : List Char) : List (List Char) :=
  (scopedParts isPrint ids metric inner rangeStr).map fun part =>
    ident ++ '(' :: (part ++ (extra ++ [')']))

/-- What a call of a range function is read as: the matchers of its selector, the range and the
other arguments, and the position behind the call. -/
def rangeCall (paren : List Char) :
    Except Failure (Option (List Char × List Char × List Char × List Char × List Char)) := do
  match ← rangeArgument paren with
  | none => .ok none
  | some (metric, inner, afterSel) =>
    let (rangeStr, after) ← readRange afterSel
    let (_, behind) ← skipParen paren
    let extra ← extraArguments after behind
    if extra.any isBrace then .ok none else .ok (some (metric, inner, rangeStr, extra, behind))

lemma rewriteRangeFuncCall_eq_ok {ident paren : List Char}
    {r : Option (List Char × List Char)}
    (h : rewriteRangeFuncCall isPrint ids ident paren = .ok r) :
    (r = none ∧ rangeCall paren = .ok none) ∨
      ∃ metric inner rangeStr extra behind,
        rangeCall paren = .ok (some (metric, inner, rangeStr, extra, behind)) ∧
        r = some (orUnion (scopedCalls isPrint ids ident metric inner rangeStr extra), behind) := by
  unfold rewriteRangeFuncCall at h
  obtain ⟨arg, harg, h⟩ := bind_eq_ok.mp h
  cases arg with
  | none =>
    simp only [Except.ok.injEq] at h
    left
    refine ⟨h.symm, ?_⟩
    unfold rangeCall
    rw [bind_eq_ok]
    exact ⟨none, harg, rfl⟩
  | some arg =>
    obtain ⟨metric, inner, afterSel⟩ := arg
    simp only [bind_eq_ok] at h
    obtain ⟨⟨parts, after⟩, hparts, ⟨text, behind⟩, hparen, extra, hextra, h⟩ := h
    obtain ⟨rangeStr, hrange, hmap⟩ := scopedSelectorParts_eq_ok hparts
    -- Both readers go through the same positions.
    have hcall : rangeCall paren =
        if extra.any isBrace then .ok none
        else .ok (some (metric, inner, rangeStr, extra, behind)) := by
      unfold rangeCall
      rw [harg]
      show (readRange afterSel >>= _) = _
      rw [hrange]
      show (skipParen paren >>= _) = _
      rw [hparen]
      show (extraArguments after behind >>= _) = _
      rw [hextra]
      rfl
    by_cases hbrace : extra.any isBrace = true
    · rw [if_pos hbrace] at h hcall
      exact .inl ⟨(Except.ok.inj h).symm, hcall⟩
    · rw [if_neg hbrace] at h hcall
      right
      refine ⟨metric, inner, rangeStr, extra, behind, hcall, ?_⟩
      rw [← Except.ok.inj h, hmap]
      simp [scopedCalls, scopedParts]

/-! ## Every round reads a byte -/

/-- A round goes on behind the byte at which it stood, and what it writes starts with that byte or
with a parenthesis. -/
structure Advances (c : Char) (s piece next : List Char) : Prop where
  suffix : next <:+ s
  head : ∃ d t, piece = d :: t ∧ (d = c ∨ d = '(')

lemma readRange_suffix (h : readRange q = .ok (text, rest)) : rest <:+ q := by
  rcases readRange_eq_ok h with ⟨_, rfl⟩ | ⟨_, _, _, _, _, hq⟩
  · exact suffix_rfl
  · rw [hq]
    exact suffix_append _ _

lemma skipSpace_suffix (q : List Char) : skipSpace q <:+ q := dropWhile_suffix _

lemma readIdent_suffix {c : Char} {s : List Char} (h : isIdentStart c = true) :
    (readIdent (c :: s)).2 <:+ s := by
  rw [readIdent, if_pos h]
  exact dropWhile_suffix _

lemma readSelector_suffix {c : Char} {s sel after : List Char}
    (h : readSelector (c :: s) = .ok (sel, after)) : after <:+ s := by
  obtain ⟨body, rfl, happ, _⟩ := readSelector_eq_ok h
  rw [cons_append, List.cons.injEq] at happ
  rw [happ.2]
  exact suffix_append _ _

lemma skipNested_cons {opening closing c : Char} {e u : String} {s : List Char}
    (h : skipNested opening closing e u (c :: s) = .ok (text, rest)) :
    ∃ t, text = c :: t ∧ s = t ++ rest :=
  scanUntil_cons_eq_some (skipNested_eq_ok h).2

lemma skipNested_suffix {opening closing : Char} {e u : String}
    (h : skipNested opening closing e u q = .ok (text, rest)) : rest <:+ q := by
  rw [scanUntil_append (skipNested_eq_ok h).2]
  exact suffix_append _ _

/-- The end of the exponent, as `skipNumber` finds it. -/
def skipExponent : List Char → List Char
  | [] => []
  | c :: s =>
    if c = 'e' ∨ c = 'E' then
      if Promql.startsWithDigit (signEnd s) then (signEnd s).dropWhile isDigit else c :: s
    else c :: s

lemma skipNumber_eq (q : List Char) : skipNumber q = decimalEnd q := by
  have hdigit : ∀ q : List Char, startsWithDigit q = Promql.startsWithDigit q := by
    intro q
    cases q <;> rfl
  rw [skipNumber, decimalEnd]
  simp only [hdigit]
  change skipExponent (fractionEnd (q.dropWhile isDigit)) = _
  cases fractionEnd (q.dropWhile isDigit) with
  | nil => rfl
  | cons c s =>
    simp only [skipExponent, exponentEnd]
    split_ifs with he hd h h h
    · rfl
    · exact absurd ⟨he, hd⟩ h
    · exact absurd h.2 hd
    · rfl
    · exact absurd h.1 he
    · rfl

lemma isNumberStart_iff {c : Char} {s : List Char} :
    isNumberStart (c :: s) = true ↔ isDigit c = true ∨ (c = '.' ∧ startsWithDigit s = true) := by
  simp [isNumberStart, isDigit_eq]

lemma exists_number {c : Char} {s : List Char} (h : isNumberStart (c :: s) = true) :
    ∃ t, s = t ++ skipNumber (c :: s) ∧
      between (c :: s) (skipNumber (c :: s)) = c :: t := by
  have hsuffix : skipNumber (c :: s) <:+ s := by
    rw [skipNumber_eq]
    rcases isNumberStart_iff.mp h with hc | ⟨rfl, _⟩
    · rw [decimalEnd_digit hc]
      exact (decimalEnd_drops s).suffix
    · exact decimalEnd_point_drops.suffix
  obtain ⟨t, ht⟩ := hsuffix
  refine ⟨t, ht.symm, ?_⟩
  have happ : c :: s = (c :: t) ++ skipNumber (c :: s) := by
    rw [cons_append, ht]
  have hbetween := between_append (c :: t) (skipNumber (c :: s))
  rwa [← happ] at hbetween

lemma orUnion_head {parts : List (List Char)} {c : Char}
    (h : ∀ part ∈ parts, ∃ t, part = c :: t) :
    ∃ d t, orUnion parts = d :: t ∧ (d = c ∨ d = '(') := by
  unfold orUnion
  split
  · obtain ⟨t, ht⟩ := h _ mem_cons_self
    exact ⟨c, t, ht, .inl rfl⟩
  · exact ⟨'(', _, rfl, .inr rfl⟩

lemma scopedParts_head {c : Char} (h : ∃ t, metric ++ ['\x7b'] = c :: t) :
    ∀ part ∈ scopedParts isPrint ids metric inner rangeStr, ∃ t, part = c :: t := by
  intro part hpart
  obtain ⟨id, _, rfl⟩ := mem_map.mp hpart
  obtain ⟨t, ht⟩ := h
  rw [scopedBraces, ← singleton_append, ← append_assoc, ht]
  exact ⟨_, rfl⟩

lemma rangeCall_suffix {c : Char} {s : List Char} {extra behind : List Char}
    (h : rangeCall (c :: s) = .ok (some (metric, inner, rangeStr, extra, behind))) :
    behind <:+ s := by
  unfold rangeCall at h
  obtain ⟨arg, _, h⟩ := bind_eq_ok.mp h
  cases arg with
  | none => cases h
  | some arg =>
    simp only [bind_eq_ok] at h
    obtain ⟨⟨_, after⟩, _, ⟨text, behind'⟩, hparen, extra', _, h⟩ := h
    by_cases hbrace : extra'.any isBrace = true
    · rw [if_pos hbrace] at h
      cases h
    · rw [if_neg hbrace] at h
      simp only [Except.ok.injEq, Option.some.injEq, Prod.mk.injEq] at h
      obtain ⟨t, _, hs⟩ := skipNested_cons hparen
      rw [← h.2.2.2.2, hs]
      exact suffix_append _ _

/-! ## What a round can do -/

/-- The identifier at which the rewriter stands, and the position behind it. -/
structure IdentAt (c : Char) (s ident after : List Char) : Prop where
  start : isIdentStart c = true
  read : readIdent (c :: s) = (ident, after)

section
variable {c : Char} {s ident after : List Char}

lemma IdentAt.isIdent (h : IdentAt c s ident after) :
    IsIdent ident := by
  have hspec := (readIdent_spec (s := s) h.start).2.1
  rwa [h.read] at hspec

lemma IdentAt.append (h : IdentAt c s ident after) :
    c :: s = ident ++ after := by
  have hspec := (readIdent_spec (s := s) h.start).1
  rwa [h.read] at hspec

lemma IdentAt.headNot (h : IdentAt c s ident after) :
    HeadNot isIdentCont after := by
  have hspec := (readIdent_spec (s := s) h.start).2.2.1
  rwa [h.read] at hspec

lemma IdentAt.cons (h : IdentAt c s ident after) :
    ∃ t, ident = c :: t := by
  have hspec := (readIdent_spec (s := s) h.start).2.2.2
  rwa [h.read] at hspec

lemma IdentAt.suffix (h : IdentAt c s ident after) :
    after <:+ s := by
  have hsuffix := readIdent_suffix (s := s) h.start
  rwa [h.read] at hsuffix

lemma IdentAt.suffix_behind (h : IdentAt c s ident after) {d : Char}
    (hq : skipSpace after = d :: q) : q <:+ s := by
  have hspace := (skipSpace_suffix after).trans h.suffix
  rw [hq] at hspace
  exact (suffix_cons _ _).trans hspace

end

/-- The position starts braces, a parenthesis or a list of labels with its keyword. -/
def Opens (q : List Char) : Prop := startsWith '\x7b' q = true ∨ isAggModifier q = true

/-- One round of the rewriter: what it has found at its position, what it writes and the position
it goes on from. -/
inductive Round (isPrint : ℕ → Bool) (ids : List WAFIdentity) (c : Char) (s : List Char) :
    List Char → List Char → Prop
  | quoted {text next : List Char} : branch c s = .quoted → isQuote c = true →
      skipQuoted (c :: s) = .ok (text, next) → Round isPrint ids c s text next
  | number : branch c s = .number → isNumberStart (c :: s) = true →
      Round isPrint ids c s (between (c :: s) (skipNumber (c :: s))) (skipNumber (c :: s))
  | bracket {text next : List Char} : branch c s = .bracket → c = '[' →
      skipBracket (c :: s) = .ok (text, next) → Round isPrint ids c s text next
  | selector {sel after rangeStr next : List Char} : branch c s = .selector → c = '\x7b' →
      readSelector (c :: s) = .ok (sel, after) → readRange after = .ok (rangeStr, next) →
      Round isPrint ids c s (orUnion (scopedParts isPrint ids [] (selectorInner sel) rangeStr)) next
  | labels {ident after text next : List Char} : branch c s = .keyword ident after →
      IdentAt c s ident after → takesLabels ident = true →
      startsWith '(' (skipSpace after) = true → skipParen (skipSpace after) = .ok (text, next) →
      Round isPrint ids c s (ident ++ between after next) next
  | keyword {ident after : List Char} : branch c s = .keyword ident after →
      IdentAt c s ident after → wordKind ident ≠ .plain →
      (takesLabels ident = true → startsWith '(' (skipSpace after) = true →
        ∃ e, skipParen (skipSpace after) = .error e) →
      Round isPrint ids c s ident after
  | call {ident after paren : List Char} : branch c s = .call ident after paren →
      IdentAt c s ident after → wordKind ident = .plain → Opens (skipSpace after) →
      (toLower ident ∈ rangeVectorFuncs → rangeCall paren = .ok none) →
      Round isPrint ids c s ident after
  | aggregator {ident after : List Char} : branch c s = .aggregator ident after →
      IdentAt c s ident after → wordKind ident = .plain → Opens (skipSpace after) →
      Round isPrint ids c s ident after
  | rangeCall {ident after metric inner rangeStr extra behind : List Char} :
      branch c s = .call ident after (skipSpace after) → IdentAt c s ident after →
      wordKind ident = .plain → toLower ident ∈ rangeVectorFuncs →
      startsWith '(' (skipSpace after) = true →
      rangeCall (skipSpace after) = .ok (some (metric, inner, rangeStr, extra, behind)) →
      Round isPrint ids c s
        (orUnion (scopedCalls isPrint ids ident metric inner rangeStr extra)) behind
  | metricSelector {ident after sel afterSel rangeStr next : List Char} :
      branch c s = .metricSelector ident (skipSpace after) → IdentAt c s ident after →
      wordKind ident = .plain → startsWith '\x7b' (skipSpace after) = true →
      readSelector (skipSpace after) = .ok (sel, afterSel) →
      readRange afterSel = .ok (rangeStr, next) →
      Round isPrint ids c s
        (orUnion (scopedParts isPrint ids ident (selectorInner sel) rangeStr)) next
  | metric {ident after rangeStr next : List Char} : branch c s = .metric ident after →
      IdentAt c s ident after → wordKind ident = .plain →
      readRange after = .ok (rangeStr, next) →
      Round isPrint ids c s (orUnion (scopedParts isPrint ids ident [] rangeStr)) next
  | byte : branch c s = .byte c s → isQuote c = false → isNumberStart (c :: s) = false →
      c ≠ '[' → c ≠ '\x7b' → isIdentStart c = false → Round isPrint ids c s [c] s

lemma copyGroupingList_cases (q : List Char) :
    (∃ text rest, startsWith '(' (skipSpace q) = true ∧
      skipParen (skipSpace q) = .ok (text, rest) ∧ copyGroupingList q = (between q rest, rest)) ∨
    (copyGroupingList q = ([], q) ∧
      (startsWith '(' (skipSpace q) = true → ∃ e, skipParen (skipSpace q) = .error e)) := by
  unfold copyGroupingList
  by_cases hstart : startsWith '(' (skipSpace q) = true
  · rw [if_neg (by simp [hstart])]
    cases hskip : skipParen (skipSpace q) with
    | error e => exact .inr ⟨rfl, fun _ => ⟨e, rfl⟩⟩
    | ok r => exact .inl ⟨r.1, r.2, hstart, rfl, rfl⟩
  · rw [if_pos (by simpa using hstart)]
    exact .inr ⟨rfl, fun h => absurd h hstart⟩

lemma round_of_rewriteStep {c : Char} {s : List Char}
    (h : rewriteStep isPrint ids c s = .ok (piece, next)) : Round isPrint ids c s piece next := by
  have hreads := reads_branch c s
  rw [rewriteStep] at h
  generalize hbranch : branch c s = br at hreads h
  cases hreads with
  | quoted hc => exact .quoted hbranch hc h
  | number hc =>
    cases h
    exact .number hbranch hc
  | bracket hc => exact .bracket hbranch hc h
  | selector hc =>
    obtain ⟨sel, after, rangeStr, hsel, hrange, rfl⟩ := rewriteSelectorAt_eq_ok h
    exact .selector hbranch hc hsel hrange
  | keyword hc hkeyword =>
    have hkind : wordKind (readIdent (c :: s)).1 ≠ .plain := by
      rw [Ne, wordKind_eq_plain_iff, not_not]
      exact hkeyword
    simp only [isGroupingKeyword_iff hkeyword] at h
    by_cases htakes : takesLabels (readIdent (c :: s)).1 = true
    · rw [if_pos htakes] at h
      cases h
      rcases copyGroupingList_cases (readIdent (c :: s)).2 with
        ⟨text, rest, hstart, hskip, hcopy⟩ | ⟨hcopy, herror⟩
      · rw [hcopy]
        exact .labels hbranch ⟨hc, rfl⟩ htakes hstart hskip
      · rw [hcopy, append_nil]
        exact .keyword hbranch ⟨hc, rfl⟩ hkind fun _ => herror
    · rw [if_neg htakes] at h
      cases h
      exact .keyword hbranch ⟨hc, rfl⟩ hkind fun h => absurd h htakes
  | call hc hkeyword hparen =>
    have hkind := (wordKind_eq_plain_iff _).mpr hkeyword
    have hopens : Opens (skipSpace (readIdent (c :: s)).2) := by
      right
      obtain ⟨q, hq⟩ := startsWith_iff.mp hparen
      rw [hq]
      rfl
    simp only at h
    by_cases hfunc : toLower (readIdent (c :: s)).1 ∈ rangeVectorFuncs
    · rw [if_pos hfunc, bind_eq_ok] at h
      obtain ⟨r, hr, h⟩ := h
      rcases rewriteRangeFuncCall_eq_ok hr with ⟨rfl, hnone⟩ | ⟨_, _, _, _, _, hcall, rfl⟩
      · cases h
        exact .call hbranch ⟨hc, rfl⟩ hkind hopens fun _ => hnone
      · cases h
        exact .rangeCall hbranch ⟨hc, rfl⟩ hkind hfunc hparen hcall
    · rw [if_neg hfunc] at h
      cases h
      exact .call hbranch ⟨hc, rfl⟩ hkind hopens fun h => absurd h hfunc
  | aggregator hc hkeyword hagg =>
    cases h
    exact .aggregator hbranch ⟨hc, rfl⟩ ((wordKind_eq_plain_iff _).mpr hkeyword) (.inr hagg)
  | metricSelector hc hkeyword hbrace =>
    obtain ⟨sel, after, rangeStr, hsel, hrange, rfl⟩ := rewriteSelectorAt_eq_ok h
    exact .metricSelector hbranch ⟨hc, rfl⟩ ((wordKind_eq_plain_iff _).mpr hkeyword) hbrace hsel
      hrange
  | metric hc hkeyword =>
    obtain ⟨rangeStr, hrange, rfl⟩ := emitScopedSelectors_eq_ok h
    exact .metric hbranch ⟨hc, rfl⟩ ((wordKind_eq_plain_iff _).mpr hkeyword) hrange
  | byte hquote hnumber hbracket hbrace hident =>
    cases h
    exact .byte hbranch hquote hnumber hbracket hbrace hident

lemma rewriteStep_advances {c : Char} {s : List Char}
    (h : rewriteStep isPrint ids c s = .ok (piece, next)) : Advances c s piece next := by
  cases round_of_rewriteStep h with
  | quoted _ hc h =>
    simp only [skipQuoted] at h
    split at h
    · cases h
    · rename_i r hscan
      rw [Except.ok.inj h] at hscan
      obtain ⟨t, rfl, rfl⟩ := scanUntil_cons_eq_some hscan
      exact ⟨suffix_append _ _, c, t, rfl, .inl rfl⟩
  | number _ hc =>
    obtain ⟨t, hs, htext⟩ := exists_number hc
    exact ⟨⟨t, hs.symm⟩, c, t, htext, .inl rfl⟩
  | bracket _ hc h =>
    obtain ⟨t, rfl, rfl⟩ := skipNested_cons h
    exact ⟨suffix_append _ _, c, t, rfl, .inl rfl⟩
  | selector _ hc hsel hrange =>
    refine ⟨(readRange_suffix hrange).trans (readSelector_suffix hsel), ?_⟩
    exact orUnion_head (scopedParts_head ⟨[], by rw [hc]; rfl⟩)
  | labels _ hident _ _ hskip =>
    obtain ⟨t, rfl⟩ := hident.cons
    refine ⟨?_, c, _, rfl, .inl rfl⟩
    exact ((skipNested_suffix hskip).trans (skipSpace_suffix _)).trans hident.suffix
  | keyword _ hident _ _ =>
    obtain ⟨t, rfl⟩ := hident.cons
    exact ⟨hident.suffix, c, _, rfl, .inl rfl⟩
  | call _ hident _ _ _ =>
    obtain ⟨t, rfl⟩ := hident.cons
    exact ⟨hident.suffix, c, _, rfl, .inl rfl⟩
  | aggregator _ hident _ _ =>
    obtain ⟨t, rfl⟩ := hident.cons
    exact ⟨hident.suffix, c, _, rfl, .inl rfl⟩
  | rangeCall _ hident _ _ hparen hcall =>
    obtain ⟨q, hq⟩ := startsWith_iff.mp hparen
    rw [hq] at hcall
    have hsuffix := hident.suffix_behind hq
    refine ⟨(rangeCall_suffix hcall).trans hsuffix, orUnion_head ?_⟩
    obtain ⟨t, rfl⟩ := hident.cons
    intro call hmem
    obtain ⟨part, _, rfl⟩ := mem_map.mp hmem
    exact ⟨_, rfl⟩
  | metricSelector _ hident _ hbrace hsel hrange =>
    obtain ⟨q, hq⟩ := startsWith_iff.mp hbrace
    rw [hq] at hsel
    have hsuffix := hident.suffix_behind hq
    refine ⟨((readRange_suffix hrange).trans (readSelector_suffix hsel)).trans hsuffix, ?_⟩
    obtain ⟨t, rfl⟩ := hident.cons
    exact orUnion_head (scopedParts_head ⟨t ++ ['\x7b'], rfl⟩)
  | metric _ hident _ hrange =>
    refine ⟨(readRange_suffix hrange).trans hident.suffix, ?_⟩
    obtain ⟨t, rfl⟩ := hident.cons
    exact orUnion_head (scopedParts_head ⟨t ++ ['\x7b'], rfl⟩)
  | byte => exact ⟨suffix_rfl, c, [], rfl, .inl rfl⟩

/-! ## Whole walks -/

/-- The rewriter turns a query into a text, round by round. -/
inductive Rewrites (isPrint : ℕ → Bool) (ids : List WAFIdentity) : List Char → List Char → Prop
  | nil : Rewrites isPrint ids [] []
  | step {c : Char} {s piece next out : List Char} :
      rewriteStep isPrint ids c s = .ok (piece, next) → Rewrites isPrint ids next out →
      Rewrites isPrint ids (c :: s) (piece ++ out)

lemma rewrites_of_rewriteLoop {n : ℕ} (hn : q.length ≤ n)
    (h : rewriteLoop isPrint ids n q = .ok out) : Rewrites isPrint ids q out := by
  induction n generalizing q out with
  | zero =>
    have hq : q = [] := length_eq_zero_iff.mp (by omega)
    subst hq
    cases h
    exact .nil
  | succ n ih =>
    cases q with
    | nil =>
      cases h
      exact .nil
    | cons c s =>
      obtain ⟨⟨piece, next⟩, hstep, h⟩ := bind_eq_ok.mp h
      obtain ⟨rest, hrest, h⟩ := bind_eq_ok.mp h
      cases h
      have hlength := (rewriteStep_advances hstep).suffix.length_le
      rw [length_cons] at hn
      exact .step hstep (ih (by omega) hrest)

lemma rewrites_of_rewritePromQL (h : rewritePromQL isPrint q ids = .ok out) :
    Rewrites isPrint ids q out :=
  rewrites_of_rewriteLoop (Nat.le_refl _) h

lemma Rewrites.head (h : Rewrites isPrint ids q out) :
    (q = [] ∧ out = []) ∨
      ∃ c s d t, q = c :: s ∧ out = d :: t ∧ (d = c ∨ d = '(') := by
  cases h with
  | nil => exact .inl ⟨rfl, rfl⟩
  | step hstep _ =>
    obtain ⟨d, t, hpiece, hd⟩ := (rewriteStep_advances hstep).head
    right
    exact ⟨_, _, d, _, rfl, by rw [hpiece]; rfl, hd⟩

lemma Rewrites.headNot {q out : List Char} {p : Char → Bool} (h : Rewrites isPrint ids q out)
    (hparen : p '(' = false) (hq : HeadNot p q) : HeadNot p out := by
  rcases h.head with ⟨_, rfl⟩ | ⟨c, s, d, t, rfl, rfl, hd⟩
  · exact headNot_nil _
  · apply headNot_cons
    rcases hd with rfl | rfl
    · exact hq d s rfl
    · exact hparen

end

end KubeWaf.Subresource
