import KubeWaf.Subresource.PromqlSafe

/-!
# Scoping is complete on safe queries

By induction on the walk of the rewriter: in front of a text whose selectors all carry an identity,
each round writes a piece of which the same is true.
-/

namespace KubeWaf.Subresource

open Lib Lib.Promql List

variable {ident after : List Char}

section
variable {isPrint : ℕ → Bool} {ids : List WAFIdentity} {P : List Matcher → Prop} {b : Bool}
  {c : Char} {s q out piece next t rangeStr : List Char}

/-! ## Copied text -/

lemma not_opens {k : CharKind} (h : charKind c = k)
    (hk : k ∉ [CharKind.lparen, .lbrace, .alpha, .other]) : ¬Opens (c :: s) := by
  simp only [mem_cons, not_mem_nil, or_false, not_or] at hk
  intro hopens
  rcases opens_cons hopens with rfl | rfl | ⟨hident, _⟩
  · exact hk.2.1 (by rw [← h]; decide)
  · exact hk.1 (by rw [← h]; decide)
  · rcases charKind_of_isIdentStart hident with hkind | hkind
    · exact hk.2.2.1 (by rw [← h]; exact hkind)
    · exact hk.2.2.2 (by rw [← h]; exact hkind)

lemma isAlpha_of_charKind (h : charKind c ≠ .alpha) : isAlpha c = false := by
  by_contra halpha
  rw [Bool.not_eq_false] at halpha
  apply h
  apply charKind_of_isWordChar
  · rw [isWordChar, isAlnum, halpha, Bool.true_or, Bool.true_or]
  · rw [isAlpha_iff] at halpha
    rw [← Bool.not_eq_true, isDigit_iff]
    omega

lemma walk_of_charKind {k : CharKind} (h : charKind c = k)
    (hk : k ∈ [CharKind.quote, .lbracket, .digit, .point]) (hsel : Selects P b (c :: t)) :
    Walk P b (c :: s) (c :: t) := by
  have hkinds : ∀ k ∈ [CharKind.quote, .lbracket, .digit, .point],
      k ∉ [CharKind.blank, .comment, .lparen, .operator]
        ∧ k ∉ [CharKind.lparen, .lbrace, .alpha, .other] ∧ k ≠ .alpha := by decide
  obtain ⟨hsolid, hopens, halpha⟩ := hkinds k hk
  refine walk_of_head (solid_of_charKind h hsolid) hsel ?_ ?_
  · intro _
    exact absorbs_of_head (headNot_cons (isAlpha_of_charKind (by rw [h]; exact halpha)))
  · intro hopen
    exact absurd hopen (not_opens h hopens)

lemma walk_quoted (hc : isQuote c = true) (h : skipQuoted (c :: s) = .ok (piece, next))
    (hout : Walk P false next out) : Walk P b (c :: s) (piece ++ out) := by
  unfold skipQuoted at h
  split at h
  · cases h
  · rename_i r hscan
    rw [Except.ok.inj h] at hscan
    have hsel : Selects P b (piece ++ out) := selects_quoted hc hscan hout.selects
    have hkind : charKind c = .quote := charKind_of_isQuote hc
    obtain ⟨t, rfl, _⟩ := scanUntil_cons_eq_some hscan
    exact walk_of_charKind hkind (by decide) hsel

lemma walk_bracket (hc : c = '[') (h : skipBracket (c :: s) = .ok (piece, next))
    (hclosed : Closed isStray piece) (hout : Walk P false next out) :
    Walk P b (c :: s) (piece ++ out) := by
  have hsel : Selects P b (piece ++ out) := selects_bracket h hclosed hout.selects
  have hkind : charKind c = .lbracket := by rw [hc]; decide
  obtain ⟨t, rfl, _⟩ := skipNested_cons h
  exact walk_of_charKind hkind (by decide) hsel

/-! ## Numbers -/

lemma headNot_decimalEnd (q : List Char) : HeadNot isDigit (decimalEnd q) := by
  have hdrop : HeadNot isDigit (q.dropWhile isDigit) := headNot_dropWhile _ _
  have hfraction : HeadNot isDigit (fractionEnd (q.dropWhile isDigit)) := by
    cases hq : q.dropWhile isDigit with
    | nil => exact headNot_nil _
    | cons c s =>
      rw [fractionEnd]
      split_ifs
      · exact headNot_dropWhile _ _
      · rw [← hq]
        exact hdrop
  rw [decimalEnd]
  cases hq : fractionEnd (q.dropWhile isDigit) with
  | nil => exact headNot_nil _
  | cons c s =>
    rw [exponentEnd]
    split_ifs
    · exact headNot_dropWhile _ _
    · rw [← hq]
      exact hfraction

lemma endsName_of_opens (hnext : HeadNot isIdentCont next) (hopens : Opens (skipSpace next))
    (h : Rewrites isPrint ids next out) : EndsName out := by
  have hhead : ∃ c s, next = c :: s ∧ (c = '(' ∨ c = '\x7b' ∨ isBlank c = true) := by
    cases next with
    | nil =>
      rcases hopens with h | h
      · exact absurd h (by decide)
      · exact absurd h (by decide)
    | cons c s =>
      refine ⟨c, s, rfl, ?_⟩
      by_cases hspace : isSpace c = true
      · exact .inr (.inr (isBlank_of_isSpace hspace))
      · rw [Bool.not_eq_true] at hspace
        rw [skipSpace_of_not hspace] at hopens
        rcases opens_cons hopens with hc | hc | ⟨hc, _⟩
        · exact .inr (.inl hc)
        · exact .inl hc
        · have hcont := hnext c s rfl
          rw [isIdentCont, hc, Bool.true_or] at hcont
          exact absurd hcont (by decide)
  obtain ⟨c, s, rfl, hc⟩ := hhead
  rcases h.head with ⟨h, _⟩ | ⟨c', s', d, t, hq, rfl, hd⟩
  · cases h
  · rw [List.cons.injEq] at hq
    rcases hd with rfl | rfl
    · exact ⟨d, t, rfl, by rw [← hq.1]; exact hc⟩
    · exact ⟨'(', t, rfl, .inl rfl⟩

lemma orUnion_named {w : List Char} {parts : List (List Char)} (rest : List Char)
    (hparts : ∀ part ∈ parts, ∃ t, part = w ++ t ∧ ∃ t', t = '\x7b' :: t' ∨ t = '(' :: t') :
    (∃ t, orUnion parts ++ rest = '(' :: t) ∨
      ∃ t, orUnion parts ++ rest = w ++ t ∧ EndsName t := by
  unfold orUnion
  split
  · obtain ⟨t, rfl, ht⟩ := hparts _ mem_cons_self
    exact .inr ⟨t ++ rest, by rw [append_assoc], endsName_append ht⟩
  · exact .inl ⟨_, rfl⟩

lemma scopedParts_named (metric inner rangeStr : List Char) :
    ∀ part ∈ scopedParts isPrint ids metric inner rangeStr,
      ∃ t, part = metric ++ t ∧ ∃ t', t = '\x7b' :: t' ∨ t = '(' :: t' := by
  intro part hpart
  obtain ⟨id, _, rfl⟩ := mem_map.mp hpart
  exact ⟨_, rfl, _, .inl rfl⟩

lemma scopedCalls_named (ident metric inner rangeStr extra : List Char) :
    ∀ call ∈ scopedCalls isPrint ids ident metric inner rangeStr extra,
      ∃ t, call = ident ++ t ∧ ∃ t', t = '\x7b' :: t' ∨ t = '(' :: t' := by
  intro call hcall
  obtain ⟨part, _, rfl⟩ := mem_map.mp hcall
  exact ⟨_, rfl, _, .inr rfl⟩

lemma Rewrites.name (hc : isIdentStart c = true) (h : Rewrites isPrint ids (c :: s) out) :
    (∃ t, out = '(' :: t) ∨
      ∃ ident after, IdentAt c s ident after ∧
        (wordKind ident ≠ .plain ∨ ∃ t, out = ident ++ t ∧ EndsName t) := by
  cases h with
  | step hstep hrest =>
    cases round_of_rewriteStep hstep with
    | quoted _ hquote _ =>
      rcases charKind_of_isIdentStart hc with hkind | hkind
      all_goals
        rw [charKind_of_isQuote hquote] at hkind
        exact absurd hkind (by decide)
    | number _ hnumber =>
      rcases isNumberStart_iff.mp hnumber with hdigit | ⟨rfl, _⟩
      · rw [isDigit_of_isIdentStart hc] at hdigit
        exact absurd hdigit (by decide)
      · exact absurd hc (by decide)
    | bracket _ hbracket _ =>
      rw [hbracket] at hc
      exact absurd hc (by decide)
    | selector _ hbrace _ _ =>
      rw [hbrace] at hc
      exact absurd hc (by decide)
    | labels _ hident htakes _ _ =>
      refine .inr ⟨_, _, hident, .inl ?_⟩
      intro hplain
      rw [takesLabels_of_plain hplain] at htakes
      exact absurd htakes (by decide)
    | keyword _ hident hkind _ => exact .inr ⟨_, _, hident, .inl hkind⟩
    | call _ hident _ hopens _ =>
      exact .inr ⟨_, _, hident, .inr ⟨_, rfl, endsName_of_opens hident.headNot hopens hrest⟩⟩
    | aggregator _ hident _ hopens =>
      exact .inr ⟨_, _, hident, .inr ⟨_, rfl, endsName_of_opens hident.headNot hopens hrest⟩⟩
    | rangeCall _ hident _ _ _ _ =>
      rcases orUnion_named _ (scopedCalls_named _ _ _ _ _) with hparen | hname
      · exact .inl hparen
      · exact .inr ⟨_, _, hident, .inr hname⟩
    | metricSelector _ hident _ _ _ _ =>
      rcases orUnion_named _ (scopedParts_named _ _ _) with hparen | hname
      · exact .inl hparen
      · exact .inr ⟨_, _, hident, .inr hname⟩
    | metric _ hident _ _ =>
      rcases orUnion_named _ (scopedParts_named _ _ _) with hparen | hname
      · exact .inl hparen
      · exact .inr ⟨_, _, hident, .inr hname⟩
    | byte _ _ _ _ _ hnot =>
      rw [hc] at hnot
      exact absurd hnot (by decide)

lemma exponentEnd_eq_self_iff :
    exponentEnd (c :: s) = c :: s ↔
      ¬((c = 'e' ∨ c = 'E') ∧ Promql.startsWithDigit (signEnd s) = true) := by
  rw [exponentEnd]
  by_cases h : (c = 'e' ∨ c = 'E') ∧ Promql.startsWithDigit (signEnd s) = true
  · rw [if_pos h]
    refine iff_of_false ?_ (not_not.mpr h)
    intro heq
    have hdrop := (dropWhile_suffix (l := signEnd s) isDigit).length_le
    have hsign := (signEnd_drops s).suffix.length_le
    rw [heq, length_cons] at hdrop
    omega
  · rw [if_neg h]
    exact iff_of_true rfl h

lemma startsWithDigit_signEnd (h : EndsName s) :
    Promql.startsWithDigit (signEnd s) = false := by
  have hhead : HeadNot (fun c => isDigit c || c == '+' || c == '-') s := by
    refine h.headNot (by decide) (by decide) ?_
    intro c hc
    have hc' : c = ' ' ∨ c = '\t' ∨ c = '\n' ∨ c = '\r' := by
      simpa [isBlank, or_assoc] using hc
    rcases hc' with rfl | rfl | rfl | rfl
    all_goals decide
  cases s with
  | nil => rfl
  | cons c s =>
    have hc := hhead c s rfl
    simp only [Bool.or_eq_false_iff, beq_eq_false_iff_ne] at hc
    rw [signEnd, if_neg (by simp [hc.1.2, hc.2])]
    exact hc.1.1

lemma Rewrites.exponentEnd (h : Rewrites isPrint ids q out)
    (hq : Promql.exponentEnd q = q) : Promql.exponentEnd out = out := by
  rcases h.head with ⟨_, rfl⟩ | ⟨c, s, d, t, rfl, rfl, hd⟩
  · rfl
  · rw [exponentEnd_eq_self_iff] at hq ⊢
    rintro ⟨he, hdigit⟩
    have hstart : isIdentStart d = true := by
      rcases he with rfl | rfl
      · decide
      · decide
    have hcd : d = c := by
      rcases hd with hd | hd
      · exact hd
      · rw [hd] at hstart
        exact absurd hstart (by decide)
    subst hcd
    rcases h.name hstart with ⟨t', hparen⟩ | ⟨ident, after, hident, hkind | ⟨t', hout, hends⟩⟩
    · rw [(List.cons.inj hparen).1] at hstart
      exact absurd hstart (by decide)
    · -- No keyword starts with this letter.
      obtain ⟨k, hk, hlower⟩ := exists_keyword hkind
      have hnone : ∀ k ∈ keywords, k.1.head? ≠ some 'e' := by decide
      obtain ⟨w, rfl⟩ := hident.cons
      apply hnone k hk
      rw [hlower, lower, map_cons, head?_cons]
      rcases he with rfl | rfl
      · decide
      · decide
    · obtain ⟨w, rfl⟩ := hident.cons
      rw [cons_append, List.cons.injEq] at hout
      have hsplit := hident.append
      rw [cons_append, List.cons.injEq] at hsplit
      rw [hout.2] at hdigit
      cases w with
      | nil =>
        rw [nil_append, startsWithDigit_signEnd hends] at hdigit
        exact absurd hdigit (by decide)
      | cons x w =>
        apply hq
        refine ⟨he, ?_⟩
        rw [hsplit.2]
        have hx : x ≠ '+' ∧ x ≠ '-' := by
          have hname := hident.isIdent.chars x (by simp)
          constructor
          · rintro rfl
            revert hname
            unfold NameChar
            decide
          · rintro rfl
            revert hname
            unfold NameChar
            decide
        have hsign : ∀ z, signEnd (x :: z) = x :: z := by
          intro z
          rw [signEnd, if_neg (by simp [hx])]
        rw [cons_append, hsign] at hdigit ⊢
        exact hdigit

lemma continues_of_rewrites (h : Rewrites isPrint ids q out) (hdigit : HeadNot isDigit q) :
    Continues q out where
  digit := h.headNot (by decide) hdigit
  point := h.headNot (by decide)
  exponent := h.exponentEnd

lemma walk_number (hc : isNumberStart (c :: s) = true)
    (h : Rewrites isPrint ids (skipNumber (c :: s)) out)
    (hout : Walk P false (skipNumber (c :: s)) out) :
    Walk P b (c :: s) (between (c :: s) (skipNumber (c :: s)) ++ out) := by
  obtain ⟨t, hs, hbetween⟩ := exists_number hc
  rw [hbetween]
  have hdigit : HeadNot isDigit (skipNumber (c :: s)) := by
    rw [skipNumber_eq]
    exact headNot_decimalEnd _
  have hcont := continues_of_rewrites h hdigit
  have hend : decimalEnd ((c :: t) ++ skipNumber (c :: s)) = skipNumber (c :: s) := by
    rw [cons_append, ← hs, skipNumber_eq]
  have hkind : charKind c = .digit ∨ charKind c = .point := by
    rcases isNumberStart_iff.mp hc with hc | ⟨rfl, _⟩
    · exact .inl (charKind_of_isDigit hc)
    · exact .inr (by decide)
  have hsel : Selects P b (c :: t ++ out) :=
    selects_number hkind (decimalEnd_replace hend hcont) hcont.digit hout.selects
      (hout.absorbs rfl)
  rcases hkind with hkind | hkind
  · exact walk_of_charKind hkind (by decide) hsel
  · exact walk_of_charKind hkind (by decide) hsel

/-! ## Names and keywords -/

lemma IdentAt.not_opens (h : IdentAt c s ident after) (hkind : wordKind ident ≠ .groupBy) :
    ¬Opens (c :: s) := by
  have hstart := h.start
  intro hopens
  rcases opens_cons hopens with rfl | rfl | ⟨_, hgroup⟩
  · exact absurd hstart (by decide)
  · exact absurd hstart (by decide)
  · rw [h.read] at hgroup
    exact hkind hgroup

lemma IdentAt.ne_nil (h : IdentAt c s ident after) : ident ≠ [] := by
  obtain ⟨t, rfl⟩ := h.cons
  simp

lemma IdentAt.headNot_out (h : IdentAt c s ident after) (hout : Rewrites isPrint ids after out) :
    HeadNot isWordChar out := by
  have hword : HeadNot isWordChar after := by
    intro d t hd
    by_contra hc
    rw [Bool.not_eq_false] at hc
    have hcont := isIdentCont_of_isWordChar hc
    rw [h.headNot d t hd] at hcont
    exact absurd hcont (by decide)
  exact hout.headNot (by decide) hword

lemma headNot_isAlnum (h : HeadNot isWordChar s) : HeadNot isAlnum s := by
  intro d t hd
  have hword := h d t hd
  rw [isWordChar, Bool.or_eq_false_iff] at hword
  exact hword.1

lemma walk_ident (h : IdentAt c s ident after) (hsel : Selects P b (ident ++ t))
    (habsorbs : b = false → Absorbs P (ident ++ t)) (ht : HeadNot isWordChar t) :
    Walk P b (c :: s) (ident ++ t) := by
  have hfollow : Opens (c :: s) → NoFollow (ident ++ t) := by
    intro hopens
    have hkind : wordKind ident = .groupBy := by
      by_contra hkind
      exact h.not_opens hkind hopens
    exact noFollow_name h.isIdent.chars h.isIdent.digit h.ne_nil ht (by rw [hkind]; decide)
  obtain ⟨w, hw⟩ := h.cons
  rw [hw, cons_append] at hsel habsorbs hfollow ⊢
  exact walk_of_head (solid_of_isIdentStart h.start) hsel habsorbs hfollow

lemma walk_name (hident : IdentAt c s ident after) (hkind : wordKind ident = .plain)
    (hopens : Opens (skipSpace after)) (h : Rewrites isPrint ids after out)
    (hout : Walk P b after out) : Walk P b (c :: s) (ident ++ out) := by
  have hword := hident.headNot_out h
  refine walk_ident hident ?_ ?_ hword
  · exact selects_name hident.isIdent.chars hident.isIdent.digit hword hkind
      (.inr (hout.noFollow hopens)) hout.selects
  · intro hb
    have hsel := hout.selects
    rw [hb] at hsel
    exact absorbs_name hident.isIdent.chars (endsName_of_opens hident.headNot hopens h) hsel

lemma walk_keyword {ident after : List Char} (hident : IdentAt c s ident after)
    (hkind : wordKind ident ≠ .plain)
    (hlabels : takesLabels ident = true → startsWith '(' (skipSpace after) = false)
    (hmetric : b = true → isMetricName ident = true →
      startsWith '\x7b' (skipSpace after) = true)
    (h : Rewrites isPrint ids after out) (hout : Walk P (afterWord b ident) after out) :
    Walk P b (c :: s) (ident ++ out) := by
  have hword := hident.headNot_out h
  refine walk_ident hident ?_ ?_ hword
  · refine selects_keyword hident.isIdent.chars hident.isIdent.digit hident.ne_nil hword ?_ ?_
      hout.selects
    · intro htakes
      have hplace : afterWord b ident = b := by
        rw [takesLabels, decide_eq_true_eq] at htakes
        simp only [mem_cons, not_mem_nil, or_false] at htakes
        rw [afterWord]
        rcases htakes with h | h | h
        all_goals rw [h]
      have hno := hout.noLabels (hlabels htakes)
      rwa [hplace] at hno
    · intro hb hname
      exact hout.noFollow (.inl (hmetric hb hname))
  · intro _
    exact absorbs_keyword hident.isIdent.chars hkind (headNot_isAlnum hword)

lemma skipParen_eq_ok {text : List Char} (h : skipParen q = .ok (text, next)) :
    text = '(' :: ((text.drop 1).dropLast ++ [')']) ∧ q = text ++ next := by
  obtain ⟨hstart, hscan⟩ := skipNested_eq_ok h
  obtain ⟨t, rfl⟩ := startsWith_iff.mp hstart
  obtain ⟨body, d, st, htext, hs, _, hstop⟩ := scanUntil_eq_some hscan
  refine ⟨?_, hs⟩
  obtain ⟨u, hu, _⟩ := scanUntil_cons_eq_some hscan
  have hd : d = ')' := by
    unfold nestedStep at hstop
    split_ifs at hstop with _ _ _ hclose
    exact hclose
  rw [hd] at htext
  cases body with
  | nil =>
    rw [hu] at htext
    exact absurd (List.cons.inj htext).1 (by decide)
  | cons e body =>
    have he : e = '(' := by
      rw [hu] at htext
      exact (List.cons.inj htext).1.symm
    rw [htext, he]
    simp

lemma walk_labels {text : List Char} (hident : IdentAt c s ident after)
    (htakes : takesLabels ident = true) (hskip : skipParen (skipSpace after) = .ok (text, next))
    (hclosed : Closed isListEnd (text.drop 1).dropLast) (hout : Walk P b next out) :
    Walk P b (c :: s) (ident ++ between after next ++ out) := by
  obtain ⟨x, hx, hblank⟩ := exists_spaces after
  obtain ⟨htext, hsplit⟩ := skipParen_eq_ok hskip
  generalize (text.drop 1).dropLast = g at htext hclosed
  have hbetween : between after next = x ++ text := by
    rw [hx, hsplit, ← append_assoc]
    exact between_append _ _
  have hshape : ident ++ between after next ++ out =
      ident ++ (x ++ '(' :: (g ++ ')' :: out)) := by
    rw [hbetween, htext]
    simp
  rw [hshape]
  have hword : HeadNot isWordChar (x ++ '(' :: (g ++ ')' :: out)) :=
    headNot_blanks hblank (headNot_cons (by decide))
  refine walk_ident hident ?_ ?_ hword
  · exact selects_labels hident.isIdent.chars hident.isIdent.digit hident.ne_nil htakes hblank
      hclosed hout.selects
  · intro _
    refine absorbs_keyword hident.isIdent.chars ?_ (headNot_isAlnum hword)
    intro hplain
    rw [takesLabels_of_plain hplain] at htakes
    exact absurd htakes (by decide)

/-! ## Single bytes -/

/-- A byte that the rewriter copies. -/
structure CopiedByte (c : Char) (s : List Char) : Prop where
  quote : isQuote c = false
  number : isNumberStart (c :: s) = false
  bracket : c ≠ '['
  brace : c ≠ '\x7b'
  ident : isIdentStart c = false
  stray : isStray c = false

lemma CopiedByte.charKind (h : CopiedByte c s) :
    charKind c ∈ [CharKind.blank, .point, .lparen, .rparen, .comma, .atSign, .operator, .other] := by
  have hdigit : isDigit c = false := by
    have hnumber := h.number
    rw [isNumberStart, Bool.or_eq_false_iff] at hnumber
    exact hnumber.1
  by_cases hsmall : c.toNat < 128
  · have hall : ∀ n : Fin 128, isQuote (Char.ofNat n) = false → isDigit (Char.ofNat n) = false →
        Char.ofNat n ≠ '[' → Char.ofNat n ≠ '\x7b' → isIdentStart (Char.ofNat n) = false →
        isStray (Char.ofNat n) = false → Promql.charKind (Char.ofNat n) ∈
          [CharKind.blank, .point, .lparen, .rparen, .comma, .atSign, .operator, .other] := by
      decide +kernel
    exact forall_ascii (P := fun c => isQuote c = false → isDigit c = false → c ≠ '[' →
      c ≠ '\x7b' → isIdentStart c = false → isStray c = false → Promql.charKind c ∈
        [CharKind.blank, .point, .lparen, .rparen, .comma, .atSign, .operator, .other]) hall
      hsmall h.quote hdigit h.bracket h.brace h.ident h.stray
  · rw [charKind_eq_other (by omega)]
    decide

lemma noLabels_blank (hc : isBlank c = true) (h : NoLabels P b s) : NoLabels P b (c :: s) := by
  intro ts hts
  obtain ⟨toks, rest, ts', hone, hrest, rfl⟩ := lexes_cons hts
  simp only [lexOne, isBlank_charKind hc, Option.some.injEq, Prod.mk.injEq] at hone
  rw [← hone.1, nil_append]
  rw [← hone.2] at hrest
  exact h ts' hrest

lemma walk_blank (hc : charKind c = .blank) (hout : Walk P b s out) :
    Walk P b (c :: s) (c :: out) := by
  have hblank := isBlank_of_charKind hc
  have hspace : skipSpace (c :: s) = skipSpace s := by
    have hc : isSpace c = true := hblank
    rw [skipSpace, dropWhile_cons_of_pos hc, skipSpace]
  refine ⟨selects_blank hblank hout.selects, ?_, ?_, ?_, ?_⟩
  · intro _
    exact absorbs_of_head (headNot_cons (isAlpha_of_charKind (by rw [hc]; decide)))
  · intro _ t ht
    rw [(List.cons.inj ht).1] at hc
    exact absurd hc (by decide)
  · intro hparen
    rw [hspace] at hparen
    exact noLabels_blank hblank (hout.noLabels hparen)
  · intro hopens
    rw [hspace] at hopens
    exact noFollow_blank hblank (hout.noFollow hopens)

lemma walk_of_byte (hbyte : CopiedByte c s) (hblank : charKind c ≠ .blank)
    (hsel : Selects P b (c :: t)) (hequals : c = '=' → Selects P true t) :
    Walk P b (c :: s) (c :: t) := by
  have hkind := hbyte.charKind
  have hspace : skipSpace (c :: s) = c :: s := by
    apply skipSpace_of_not
    by_contra h
    rw [Bool.not_eq_false] at h
    exact hblank (isBlank_charKind (isBlank_of_isSpace h))
  refine ⟨hsel, ?_, ?_, ?_, ?_⟩
  · intro _
    refine absorbs_of_head (headNot_cons (isAlpha_of_charKind ?_))
    intro halpha
    rw [halpha] at hkind
    exact absurd hkind (by decide)
  · intro _ t' ht
    rw [List.cons.injEq] at ht
    rw [← ht.2]
    exact hequals ht.1
  · intro hparen
    rw [hspace] at hparen
    refine noLabels_of_head hblank ?_ ?_
    · intro hcomment
      rw [hcomment] at hkind
      exact absurd hkind (by decide)
    · intro hc
      rw [hc] at hparen
      exact absurd hparen (by simp [startsWith])
  · intro hopens
    rw [hspace] at hopens
    rcases opens_cons hopens with hc | rfl | ⟨hc, _⟩
    · exact absurd hc hbyte.brace
    · exact noFollow_lparen
    · rw [hbyte.ident] at hc
      exact absurd hc (by decide)

lemma walk_byte (hbyte : CopiedByte c s) (h : Rewrites isPrint ids s out)
    (hout : Walk P (afterByte b c) s out) : Walk P b (c :: s) (c :: out) := by
  have hkind := hbyte.charKind
  simp only [mem_cons, not_mem_nil, or_false] at hkind
  have hnot : ∀ k, charKind c = k → k ≠ .operator → c = '=' → Selects P true out := by
    intro k hk hne heq
    rw [heq] at hk
    exact absurd hk.symm hne
  rcases hkind with hk | hk | hk | hk | hk | hk | hk | hk
  all_goals rw [afterByte, hk] at hout
  · exact walk_blank hk hout
  · have hc : c = '.' := eq_of_charKind (by decide) hk
    refine walk_of_byte hbyte (by rw [hk]; decide) ?_ (hnot _ hk (by decide))
    have hdigit : HeadNot isDigit s := by
      intro d t hs
      have hnumber := hbyte.number
      rw [isNumberStart, hc, hs, Bool.or_eq_false_iff] at hnumber
      simpa [startsWithDigit, isDigit_eq] using hnumber.2
    have hstart : Promql.startsWithDigit out = false := by
      have hhead := h.headNot (by decide) hdigit
      cases out with
      | nil => rfl
      | cons d t => exact hhead d t rfl
    rw [hc]
    exact selects_point hstart
  · refine walk_of_byte hbyte (by rw [hk]; decide) ?_ (hnot _ hk (by decide))
    rw [eq_of_charKind (d := '(') (by decide) hk]
    exact selects_lparen hout.selects
  · refine walk_of_byte hbyte (by rw [hk]; decide) ?_ (hnot _ hk (by decide))
    rw [eq_of_charKind (d := ')') (by decide) hk]
    exact selects_rparen hout.selects
  · refine walk_of_byte hbyte (by rw [hk]; decide) ?_ (hnot _ hk (by decide))
    rw [eq_of_charKind (d := ',') (by decide) hk]
    exact selects_comma hout.selects
  · refine walk_of_byte hbyte (by rw [hk]; decide) ?_ (hnot _ hk (by decide))
    rw [eq_of_charKind (d := '@') (by decide) hk]
    exact selects_atSign hout.selects
  · refine walk_of_byte hbyte (by rw [hk]; decide) ?_ fun _ => hout.selects
    exact selects_operator hk hout.selects (hout.equals rfl)
  · refine walk_of_byte hbyte (by rw [hk]; decide) ?_ (hnot _ hk (by decide))
    exact selects_other hk

/-! ## Whole queries -/

lemma selectorSafe_eq_true {go : List Char → Bool} {inner : List Char}
    (h : selectorSafe go inner after = true) (hrange : readRange after = .ok (rangeStr, next)) :
    Closed isStray inner ∧ Closed isStray rangeStr ∧ go next = true := by
  rw [selectorSafe, hrange] at h
  simp only [Bool.and_eq_true, decide_eq_true_eq] at h
  exact ⟨h.1.1, h.1.2, h.2⟩

lemma walk_selectors {metric inner : List Char} (hids : ids ≠ []) (hmetric : IsIdent metric)
    (hinner : Closed isBraceEnd inner) (hrange : readRange after = .ok (rangeStr, next))
    (hclosed : Closed isStray rangeStr) (hc : Solid c) (hhead : ∃ t, metric ++ ['\x7b'] = c :: t)
    (hopens : Opens (c :: s) → metric = []) (hout : Walk (InScope ids) false next out) :
    Walk (InScope ids) b (c :: s)
      (orUnion (scopedParts isPrint ids metric inner rangeStr) ++ out) := by
  refine walk_union hmetric ?_ ?_ hc (scopedParts_head hhead) hopens hout
  · intro part hpart
    exact named_selector hmetric hinner hrange hclosed hpart
  · simpa [scopedParts] using hids

lemma walk_of_safe (hids : ids ≠ []) (h : Rewrites isPrint ids q out) :
    ∀ n b, safeFrom n b q = true → Walk (InScope ids) b q out := by
  induction h with
  | nil => exact fun _ _ _ => walk_nil
  | @step c s piece next out hstep hrest ih =>
    intro n b hsafe
    cases n with
    | zero => exact absurd hsafe (by simp [safeFrom])
    | succ n =>
      rw [safeFrom] at hsafe
      cases round_of_rewriteStep hstep with
      | quoted hbranch hc hskip =>
        simp only [hbranch, hskip] at hsafe
        exact walk_quoted hc hskip (ih n false hsafe)
      | number hbranch hc =>
        simp only [hbranch] at hsafe
        exact walk_number hc hrest (ih n false hsafe)
      | bracket hbranch hc hskip =>
        simp only [hbranch, hskip, Bool.and_eq_true, decide_eq_true_eq] at hsafe
        exact walk_bracket hc hskip hsafe.1 (ih n false hsafe.2)
      | selector hbranch hc hsel hrange =>
        simp only [hbranch, hsel] at hsafe
        obtain ⟨hinner, hclosed, hsafe⟩ := selectorSafe_eq_true hsafe hrange
        have hkind : charKind c = .lbrace := by rw [hc]; decide
        exact walk_selectors hids isIdent_nil (closed_selectorInner hsel hinner) hrange hclosed
          (solid_of_charKind hkind (by decide)) ⟨[], by rw [hc]; rfl⟩ (fun _ => rfl)
          (ih n false hsafe)
      | labels hbranch hident htakes hstart hskip =>
        simp only [hbranch, htakes, hstart, Bool.true_and, if_true, hskip, Bool.and_eq_true,
          decide_eq_true_eq] at hsafe
        exact walk_labels hident htakes hskip hsafe.1 (ih n b hsafe.2)
      | keyword hbranch hident hkind herror =>
        simp only [hbranch] at hsafe
        by_cases hlabels : (takesLabels piece && startsWith '(' (skipSpace next)) = true
        · rw [if_pos hlabels] at hsafe
          rw [Bool.and_eq_true] at hlabels
          obtain ⟨e, he⟩ := herror hlabels.1 hlabels.2
          rw [he] at hsafe
          cases hsafe
        · rw [if_neg hlabels, Bool.and_eq_true, Bool.or_eq_true] at hsafe
          refine walk_keyword hident hkind ?_ ?_ hrest (ih n _ hsafe.2)
          · intro htakes
            simpa [htakes] using hlabels
          · intro hb hname
            simpa [hb, hname] using hsafe.1
      | call hbranch hident hkind hopens hnone =>
        simp only [hbranch] at hsafe
        refine walk_name hident hkind hopens hrest (ih n b ?_)
        by_cases hfunc : toLower piece ∈ rangeVectorFuncs
        · rw [if_pos hfunc, hnone hfunc] at hsafe
          exact hsafe
        · rw [if_neg hfunc] at hsafe
          exact hsafe
      | aggregator hbranch hident hkind hopens =>
        simp only [hbranch] at hsafe
        exact walk_name hident hkind hopens hrest (ih n b hsafe)
      | rangeCall hbranch hident hkind hfunc _ hcall =>
        simp only [hbranch, if_pos hfunc, hcall, Bool.and_eq_true, decide_eq_true_eq] at hsafe
        obtain ⟨⟨⟨hinner, hclosed⟩, hextra⟩, hsafe⟩ := hsafe
        obtain ⟨hmetric, hbrace, ⟨afterSel, after', hrange⟩, hany⟩ :=
          rangeCall_eq_some hcall hinner
        refine walk_union hident.isIdent ?_ ?_ (solid_of_isIdentStart hident.start) ?_ ?_
          (ih n false hsafe)
        · intro call hmem
          exact named_call hident.isIdent hkind hmetric hbrace hrange hclosed hextra hany hmem
        · simpa [scopedCalls, scopedParts] using hids
        · intro call hmem
          obtain ⟨t, rfl, _⟩ := scopedCalls_named _ _ _ _ _ call hmem
          obtain ⟨w, rfl⟩ := hident.cons
          exact ⟨w ++ t, rfl⟩
        · intro hopens
          exact absurd hopens (hident.not_opens (by rw [hkind]; decide))
      | metricSelector hbranch hident hkind hbrace hsel hrange =>
        simp only [hbranch, hsel] at hsafe
        obtain ⟨hinner, hclosed, hsafe⟩ := selectorSafe_eq_true hsafe hrange
        obtain ⟨w, hw⟩ := hident.cons
        refine walk_selectors hids hident.isIdent (closed_selectorInner hsel hinner) hrange hclosed
          (solid_of_isIdentStart hident.start) ⟨w ++ ['\x7b'], by rw [hw]; rfl⟩ ?_
          (ih n false hsafe)
        intro hopens
        exact absurd hopens (hident.not_opens (by rw [hkind]; decide))
      | metric hbranch hident hkind hrange =>
        simp only [hbranch] at hsafe
        obtain ⟨_, hclosed, hsafe⟩ := selectorSafe_eq_true hsafe hrange
        obtain ⟨w, hw⟩ := hident.cons
        refine walk_selectors hids hident.isIdent closed_nil hrange hclosed
          (solid_of_isIdentStart hident.start) ⟨w ++ ['\x7b'], by rw [hw]; rfl⟩ ?_
          (ih n false hsafe)
        intro hopens
        exact absurd hopens (hident.not_opens (by rw [hkind]; decide))
      | byte hbranch hquote hnumber hbracket hbrace hident =>
        simp only [hbranch, Bool.and_eq_true, Bool.not_eq_true'] at hsafe
        exact walk_byte ⟨hquote, hnumber, hbracket, hbrace, hident, hsafe.1⟩ hrest
          (ih n _ hsafe.2)

lemma inScope_of_safeQuery {query : List Char} {sels : List (List Matcher)} (hids : ids ≠ [])
    (hsafe : safeQuery query = true) (h : rewritePromQL isPrint query ids = .ok out)
    (hparses : Parses out sels) : ∀ ms ∈ sels, InScope ids ms := by
  obtain ⟨ts, hts, hderives⟩ := hparses
  have hwalk := walk_of_safe hids (rewrites_of_rewritePromQL h) _ true hsafe
  rw [← scan_eq_of_derives hderives]
  exact hwalk.selects ts hts

end

def asciiPrint (r : ℕ) : Bool := 32 ≤ r && r < 127

def identityMatchers (ns name : String) : List Matcher :=
  [⟨"waf_namespace".toList, .eq, ns.toList⟩, ⟨"waf_name".toList, .eq, name.toList⟩]

end KubeWaf.Subresource
