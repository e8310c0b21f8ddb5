import KubeWaf.Subresource.PromqlWalk
import Mathlib

/-!
# Queries that are scoped completely

The rewriter copies some parts of a query as they are. For which queries no selector hides in such
a part: no comment and no back quote outside of string literals, no keyword as the name of a metric
without braces, closed lists of labels without parentheses, and no selector in the other arguments
of a range function.
-/

namespace KubeWaf.Subresource

open Lib Lib.Promql List

variable {metric inner rangeStr afterSel extra : List Char}

/-! ## The condition -/

/-- Whether an operand is due behind a byte that is copied. -/
def afterByte (operand : Bool) (c : Char) : Bool :=
  match charKind c with
  | .lparen | .comma | .atSign | .operator => true
  | .rparen => false
  | _ => operand

/-- The matchers and the range of a selector hide nothing, and neither does what follows. -/
def selectorSafe (go : List Char → Bool) (inner after : List Char) : Bool :=
  match readRange after with
  | .error _ => true
  | .ok (rangeStr, rest) =>
    decide (Closed isStray inner) && decide (Closed isStray rangeStr) && go rest

/-- The condition from a position on, where an operand is due or not. It reads the query as the
rewriter does; where the rewriter fails, there is nothing to ask. -/
def safeFrom : ℕ → Bool → List Char → Bool
  | _, _, [] => true
  | 0, _, _ :: _ => false
  | n + 1, operand, c :: s =>
    match branch c s with
    | .quoted =>
      match skipQuoted (c :: s) with
      | .error _ => true
      | .ok (_, rest) => safeFrom n false rest
    | .number => safeFrom n false (skipNumber (c :: s))
    | .bracket =>
      match skipBracket (c :: s) with
      | .error _ => true
      | .ok (text, rest) => decide (Closed isStray text) && safeFrom n false rest
    | .selector =>
      match readSelector (c :: s) with
      | .error _ => true
      | .ok (sel, after) => selectorSafe (safeFrom n false) (selectorInner sel) after
    | .keyword ident next =>
      if takesLabels ident && startsWith '(' (skipSpace next) then
        match skipParen (skipSpace next) with
        | .error _ => false
        | .ok (text, rest) =>
          decide (Closed isListEnd (text.drop 1).dropLast) && safeFrom n operand rest
      else
        -- A keyword at an operand names a metric, which is only scoped if it has braces.
        (!(operand && isMetricName ident) || startsWith '\x7b' (skipSpace next)) &&
          safeFrom n (afterWord operand ident) next
    | .call ident next paren =>
      if toLower ident ∈ rangeVectorFuncs then
        match rangeCall paren with
        | .error _ => true
        | .ok none => safeFrom n operand next
        | .ok (some (_, inner, rangeStr, extra, behind)) =>
          decide (Closed isStray inner) && decide (Closed isStray rangeStr) &&
            selectsNothing extra && safeFrom n false behind
      else safeFrom n operand next
    | .aggregator _ next => safeFrom n operand next
    | .metricSelector _ brace =>
      match readSelector brace with
      | .error _ => true
      | .ok (sel, after) => selectorSafe (safeFrom n false) (selectorInner sel) after
    | .metric _ next => selectorSafe (safeFrom n false) [] next
    | .byte c next => !isStray c && safeFrom n (afterByte operand c) next

/-- No selector of the query hides from the rewriter. -/
def safeQuery (query : List Char) : Bool := safeFrom query.length true query

/-! ## Walks that are scoped -/

section
variable {isPrint : ℕ → Bool} {ids : List WAFIdentity} {P : List Matcher → Prop} {b : Bool}
  {c : Char} {s q out next : List Char}

lemma opens_cons (h : Opens (c :: s)) :
    c = '\x7b' ∨ c = '(' ∨
      (isIdentStart c = true ∧ wordKind (readIdent (c :: s)).1 = .groupBy) := by
  rcases h with h | h
  · left
    simpa [startsWith] using h
  · right
    rw [isAggModifier] at h
    by_cases hparen : c = '('
    · exact .inl hparen
    · right
      rw [if_neg hparen] at h
      simp only at h
      by_cases hident : isIdentStart c = true
      · refine ⟨hident, ?_⟩
        split_ifs at h with hlow
        have hby : toLower (readIdent (c :: s)).1 = "by".toList ∨
            toLower (readIdent (c :: s)).1 = "without".toList := by
          by_contra hnone
          rw [not_or] at hnone
          exact hlow hnone
        have hkind : wordKind (readIdent (c :: s)).1 =
            (keywords.lookup (toLower (readIdent (c :: s)).1)).getD .plain := rfl
        rw [hkind]
        rcases hby with hby | hby
        · rw [hby]
          decide
        · rw [hby]
          decide
      · have hempty : (readIdent (c :: s)).1 = [] := by rw [readIdent, if_neg hident]
        rw [hempty, if_pos (by decide)] at h
        exact absurd h (by decide)

/-- What is known of the text that the rewriter writes for a query, from an operand or an operator
on. Beside its selectors these are the facts that the piece in front of it needs. -/
structure Walk (P : List Matcher → Prop) (operand : Bool) (q out : List Char) : Prop where
  selects : Selects P operand out
  absorbs : operand = false → Absorbs P out
  equals : operand = true → ∀ t, out = '=' :: t → Selects P true t
  noLabels : startsWith '(' (skipSpace q) = false → NoLabels P operand out
  noFollow : Opens (skipSpace q) → NoFollow out

lemma walk_nil : Walk P b [] [] where
  selects := selects_nil
  absorbs _ := absorbs_of_head (headNot_nil _)
  equals _ t h := absurd h (by simp)
  noLabels _ ts hts hparen := by
    rw [lexes_nil hts] at hparen
    exact absurd hparen (by decide)
  noFollow h := by
    rcases h with h | h
    · exact absurd h (by decide)
    · exact absurd h (by decide)

lemma skipSpace_of_not (h : isSpace c = false) : skipSpace (c :: s) = c :: s := by
  rw [skipSpace, dropWhile_cons_of_neg (by rw [h]; decide)]

lemma noLabels_of_head {t : List Char} (hblank : charKind c ≠ .blank)
    (hcomment : charKind c ≠ .comment) (hparen : c ≠ '(') : NoLabels P b (c :: t) := by
  intro ts hts hstart
  obtain ⟨out, rest, ts', hone, _, rfl⟩ := lexes_cons hts
  rcases lexOne_out hone with ⟨_, hkind | hkind⟩ | ⟨t, rfl, ht, _⟩
  · exact absurd hkind hblank
  · exact absurd hkind hcomment
  · cases t with
    | lparen => exact absurd (ht rfl) hparen
    | num | str | word w | rparen | comma | op sym | atSign | range | braces ms =>
      exact absurd hstart (by simp [startsParen])

lemma noLabels_union {w t : List Char} (hw : IsIdent w)
    (ht : ∃ t', t = '\x7b' :: t' ∨ t = '(' :: t') : NoLabels P b ('(' :: (w ++ t)) := by
  intro ts hts _
  obtain ⟨ts', rfl, hts'⟩ := lexes_lparen (x := []) (by simp) hts
  obtain ⟨t', ht⟩ := ht
  have hword : HeadNot isWordChar t := by
    rcases ht with rfl | rfl
    · exact headNot_cons (by decide)
    · exact headNot_cons (by decide)
  -- Behind the name, if there is one, stands what no list of labels has.
  have hstop : ∀ ts, Lexes t ts → scan (.labels b) ts = [] := by
    intro ts hts
    rcases ht with rfl | rfl
    · obtain ⟨ms, ts', rfl⟩ := lexes_lbrace hts
      rw [scan] <;> simp
    · obtain ⟨ts', rfl, _⟩ := lexes_lparen (x := []) (by simp) hts
      rw [scan] <;> simp
  rw [scan]
  intro ms hms
  by_cases hne : w = []
  · rw [hne] at hts'
    rw [hstop ts' hts'] at hms
    cases hms
  · obtain ⟨ts'', rfl, hts''⟩ := lexes_name hw.chars hw.digit hne hword hts'
    rw [scan, hstop ts'' hts''] at hms
    cases hms

/-- A selector or a call that is emitted for one identity: its name, and the braces or arguments
behind it. -/
structure Named (P : List Matcher → Prop) (w part : List Char) : Prop where
  split : ∃ t, part = w ++ t ∧ (∃ t', t = '\x7b' :: t' ∨ t = '(' :: t') ∧ Piece P t
  piece : Piece P part

/-- A character with which neither a blank, a comment, a parenthesis nor an equality starts. -/
structure Solid (c : Char) : Prop where
  blank : charKind c ≠ .blank
  comment : charKind c ≠ .comment
  paren : c ≠ '('
  equals : c ≠ '='

lemma Solid.space (h : Solid c) : isSpace c = false := by
  by_contra hspace
  rw [Bool.not_eq_false] at hspace
  exact h.blank (isBlank_charKind (isBlank_of_isSpace hspace))

lemma solid_of_charKind {k : CharKind} (h : charKind c = k)
    (hk : k ∉ [CharKind.blank, .comment, .lparen, .operator]) : Solid c := by
  simp only [mem_cons, not_mem_nil, or_false, not_or] at hk
  refine ⟨by rw [h]; exact hk.1, by rw [h]; exact hk.2.1, ?_, ?_⟩
  · intro heq
    rw [heq] at h
    exact hk.2.2.1 (by rw [← h]; decide)
  · intro heq
    rw [heq] at h
    exact hk.2.2.2 (by rw [← h]; decide)

lemma charKind_of_isIdentStart (h : isIdentStart c = true) :
    charKind c = .alpha ∨ charKind c = .other := by
  rcases nameChar_of_isIdentCont (by rw [isIdentCont, h, Bool.true_or]) with hword | hlarge
  · exact .inl (charKind_of_isWordChar hword (isDigit_of_isIdentStart h))
  · exact .inr (charKind_eq_other hlarge)

lemma solid_of_isIdentStart (h : isIdentStart c = true) : Solid c := by
  rcases charKind_of_isIdentStart h with hkind | hkind
  · exact solid_of_charKind hkind (by decide)
  · exact solid_of_charKind hkind (by decide)

lemma walk_of_head {t : List Char} (hc : Solid c) (hsel : Selects P b (c :: t))
    (habsorbs : b = false → Absorbs P (c :: t)) (hfollow : Opens (c :: s) → NoFollow (c :: t)) :
    Walk P b (c :: s) (c :: t) where
  selects := hsel
  absorbs := habsorbs
  equals _ t' h := absurd (List.cons.inj h).1 hc.equals
  noLabels _ := noLabels_of_head hc.blank hc.comment hc.paren
  noFollow h := by
    rw [skipSpace_of_not hc.space] at h
    exact hfollow h

lemma walk_of_paren {w t : List Char} (hw : IsIdent w)
    (ht : ∃ t', t = '\x7b' :: t' ∨ t = '(' :: t') (hsel : Selects P b ('(' :: (w ++ t))) :
    Walk P b q ('(' :: (w ++ t)) where
  selects := hsel
  absorbs _ := absorbs_of_head (headNot_cons (by decide))
  equals _ t' h := absurd (List.cons.inj h).1 (by decide)
  noLabels _ := noLabels_union hw ht
  noFollow _ := noFollow_lparen

lemma endsName_append {t : List Char} (h : ∃ t', t = '\x7b' :: t' ∨ t = '(' :: t') :
    EndsName (t ++ s) := by
  obtain ⟨t', rfl | rfl⟩ := h
  · exact ⟨_, _, rfl, .inr (.inl rfl)⟩
  · exact ⟨_, _, rfl, .inl rfl⟩

lemma walk_union {w : List Char} {parts : List (List Char)} (hw : IsIdent w)
    (hparts : ∀ part ∈ parts, Named P w part) (hne : parts ≠ []) (hc : Solid c)
    (hhead : ∀ part ∈ parts, ∃ t, part = c :: t)
    (hopens : Opens (c :: s) → w = [])
    (hout : Walk P false next out) : Walk P b (c :: s) (orUnion parts ++ out) := by
  have hpiece : Piece P (orUnion parts) := piece_orUnion fun part hp => (hparts part hp).piece
  have hsel : Selects P b (orUnion parts ++ out) := hpiece b out hout.selects
  cases parts with
  | nil => exact absurd rfl hne
  | cons part parts =>
    obtain ⟨t, hpart, ht, htpiece⟩ := (hparts part mem_cons_self).split
    cases parts with
    | nil =>
      have htext : orUnion [part] ++ out = w ++ (t ++ out) := by
        rw [orUnion, hpart, append_assoc]
      obtain ⟨u, hu⟩ := hhead part mem_cons_self
      have hcons : w ++ (t ++ out) = c :: (u ++ out) := by
        rw [← append_assoc, ← hpart, hu]
        rfl
      rw [htext] at hsel ⊢
      have habsorbs : Absorbs P (w ++ (t ++ out)) :=
        absorbs_name hw.chars (endsName_append ht) (htpiece false out hout.selects)
      have hfollow : Opens (c :: s) → NoFollow (w ++ (t ++ out)) := by
        intro h
        rw [hopens h, nil_append]
        obtain ⟨t', rfl | rfl⟩ := ht
        · exact noFollow_lbrace
        · exact noFollow_lparen
      rw [hcons] at hsel habsorbs hfollow ⊢
      exact walk_of_head hc hsel (fun _ => habsorbs) hfollow
    | cons part' parts =>
      have htext : ∃ rest, orUnion (part :: part' :: parts) ++ out =
          '(' :: (w ++ (t ++ rest)) := by
        refine ⟨" or ".toList ++ Go.join " or ".toList (part' :: parts) ++ [')'] ++ out, ?_⟩
        rw [orUnion, Go.join, intercalate_cons_cons, hpart]
        · simp [Go.join]
        · simp
      obtain ⟨rest, htext⟩ := htext
      rw [htext] at hsel ⊢
      refine walk_of_paren hw ?_ hsel
      obtain ⟨t', rfl | rfl⟩ := ht
      · exact ⟨t' ++ rest, .inl rfl⟩
      · exact ⟨t' ++ rest, .inr rfl⟩

/-! ## The pieces that carry an identity -/

lemma named_selector {after part : List Char} (hmetric : IsIdent metric)
    (hinner : Closed isBraceEnd inner) (hrange : readRange afterSel = .ok (rangeStr, after))
    (hclosed : Closed isStray rangeStr)
    (hpart : part ∈ scopedParts isPrint ids metric inner rangeStr) :
    Named (InScope ids) metric part := by
  obtain ⟨id, hid, rfl⟩ := mem_map.mp hpart
  have hpiece : Piece (InScope ids)
      (scopedBraces isPrint id (stripIdentityMatchers inner) rangeStr) :=
    piece_scopedBraces hid (closed_stripIdentityMatchers (by decide) hinner) hrange hclosed
  exact ⟨⟨_, rfl, ⟨_, .inl rfl⟩, hpiece⟩, piece_metric hmetric hpiece⟩

lemma piece_arguments {part : List Char} (hpart : Piece P part)
    (hextra : selectsNothing extra = true) (hbrace : extra.any isBrace = false) :
    Piece P ('(' :: (part ++ (extra ++ [')']))) := by
  intro b s hs
  have hnone : '\x7b' ∉ extra := by
    intro hmem
    rw [any_eq_false] at hbrace
    exact hbrace _ hmem (by decide)
  have htext : '(' :: (part ++ (extra ++ [')'])) ++ s = '(' :: (part ++ (extra ++ ')' :: s)) := by
    simp
  rw [htext]
  exact selects_lparen (hpart true _ (selects_nothing hextra hnone hs))

lemma named_call {ident after call : List Char} (hident : IsIdent ident)
    (hkind : wordKind ident = .plain) (hmetric : IsIdent metric)
    (hinner : Closed isBraceEnd inner) (hrange : readRange afterSel = .ok (rangeStr, after))
    (hclosed : Closed isStray rangeStr) (hextra : selectsNothing extra = true)
    (hbrace : extra.any isBrace = false)
    (hcall : call ∈ scopedCalls isPrint ids ident metric inner rangeStr extra) :
    Named (InScope ids) ident call := by
  obtain ⟨part, hpart, rfl⟩ := mem_map.mp hcall
  have hpiece := piece_arguments (named_selector hmetric hinner hrange hclosed hpart).piece
    hextra hbrace
  exact ⟨⟨_, rfl, ⟨_, .inr rfl⟩, hpiece⟩, piece_call hident hkind hpiece⟩

lemma rangeArgument_eq_some {paren : List Char}
    (h : rangeArgument paren = .ok (some (metric, inner, afterSel))) :
    IsIdent metric ∧
      (inner = [] ∨
        ∃ brace sel, readSelector brace = .ok (sel, afterSel) ∧ inner = selectorInner sel) := by
  cases paren with
  | nil => exact absurd h (by simp [rangeArgument])
  | cons c s =>
    simp only [rangeArgument] at h
    generalize (if (readIdent (skipSpace s)).1 ≠ [] then skipSpace (readIdent (skipSpace s)).2
      else skipSpace s) = i at h
    by_cases hopen : startsWith '\x7b' i = true
    · rw [if_pos hopen, bind_eq_ok] at h
      obtain ⟨⟨sel, after⟩, hsel, heq⟩ := h
      simp only [Except.ok.injEq, Option.some.injEq, Prod.mk.injEq] at heq
      obtain ⟨rfl, rfl, rfl⟩ := heq
      exact ⟨isIdent_readIdent _, .inr ⟨i, sel, hsel, rfl⟩⟩
    · rw [if_neg hopen] at h
      by_cases hmetric : (readIdent (skipSpace s)).1 = []
      · rw [if_pos hmetric] at h
        cases h
      · rw [if_neg hmetric] at h
        simp only [Except.ok.injEq, Option.some.injEq, Prod.mk.injEq] at h
        obtain ⟨rfl, rfl, rfl⟩ := h
        exact ⟨isIdent_readIdent _, .inl rfl⟩

lemma rangeCall_eq_some {paren behind : List Char}
    (h : rangeCall paren = .ok (some (metric, inner, rangeStr, extra, behind)))
    (hstray : Closed isStray inner) :
    IsIdent metric ∧ Closed isBraceEnd inner ∧
      (∃ afterSel after, readRange afterSel = .ok (rangeStr, after)) ∧
      extra.any isBrace = false := by
  unfold rangeCall at h
  obtain ⟨arg, harg, h⟩ := bind_eq_ok.mp h
  cases arg with
  | none => cases h
  | some arg =>
    obtain ⟨metric', inner', afterSel⟩ := arg
    simp only [bind_eq_ok] at h
    obtain ⟨⟨rangeStr', after⟩, hrange, ⟨text, behind'⟩, _, extra', _, h⟩ := h
    by_cases hbrace : extra'.any isBrace = true
    · rw [if_pos hbrace] at h
      cases h
    · rw [if_neg hbrace] at h
      simp only [Except.ok.injEq, Option.some.injEq, Prod.mk.injEq] at h
      obtain ⟨rfl, rfl, rfl, rfl, rfl⟩ := h
      obtain ⟨hmetric, hinner⟩ := rangeArgument_eq_some harg
      have hclosed : Closed isBraceEnd inner' := by
        rcases hinner with rfl | ⟨brace, sel, hsel, rfl⟩
        · exact closed_nil
        · exact closed_selectorInner hsel hstray
      exact ⟨hmetric, hclosed, ⟨afterSel, after, hrange⟩, by simpa using hbrace⟩

end

end KubeWaf.Subresource
