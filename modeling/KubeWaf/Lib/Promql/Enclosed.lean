import KubeWaf.Lib.Promql.Pieces

/-!
# Texts in front of a closing parenthesis

If the literals of a text are closed, and no comment and no back quote stands outside of them, then
no token reaches over a parenthesis that follows the text.
-/

namespace KubeWaf.Lib.Promql

open List

/-- What hides text from the lexer without being a string in single or double quotes. -/
def isStray (c : Char) : Bool := c == '#' || c == backquote

section
variable {bad : Char → Bool} {c : Char} {g s r : List Char} {out : List Token}

lemma dropWhile_rparen {p : Char → Bool} (hp : p ')' = false) (g s : List Char) :
    (g ++ ')' :: s).dropWhile p = g.dropWhile p ++ ')' :: s := by
  rw [dropWhile_append]
  split_ifs with hempty
  · rw [List.isEmpty_iff.mp hempty, dropWhile_cons_of_neg (by rw [hp]; decide)]
    rfl
  · rfl

lemma takeWhile_rparen {p : Char → Bool} (hp : p ')' = false) (g s : List Char) :
    (g ++ ')' :: s).takeWhile p = g.takeWhile p := by
  induction g with
  | nil => exact takeWhile_cons_of_neg (by rw [hp]; decide)
  | cons c g ih =>
    by_cases hc : p c = true
    · rw [cons_append, takeWhile_cons_of_pos hc, takeWhile_cons_of_pos hc, ih]
    · rw [cons_append, takeWhile_cons_of_neg hc, takeWhile_cons_of_neg hc]

lemma fractionEnd_rparen (g s : List Char) :
    fractionEnd (g ++ ')' :: s) = fractionEnd g ++ ')' :: s := by
  cases g with
  | nil => rfl
  | cons c g =>
    rw [cons_append, fractionEnd, fractionEnd]
    split_ifs
    · exact dropWhile_rparen (by decide) g s
    · rfl

lemma signEnd_rparen (g s : List Char) :
    signEnd (g ++ ')' :: s) = signEnd g ++ ')' :: s := by
  cases g with
  | nil => rfl
  | cons c g =>
    rw [cons_append, signEnd, signEnd]
    split_ifs <;> rfl

lemma startsWithDigit_rparen (g s : List Char) :
    startsWithDigit (g ++ ')' :: s) = startsWithDigit g := by
  cases g with
  | nil => rfl
  | cons c g => rfl

lemma exponentEnd_rparen (g s : List Char) :
    exponentEnd (g ++ ')' :: s) = exponentEnd g ++ ')' :: s := by
  cases g with
  | nil => rfl
  | cons c g =>
    rw [cons_append, exponentEnd, exponentEnd, signEnd_rparen, startsWithDigit_rparen]
    split_ifs
    · exact dropWhile_rparen (by decide) _ s
    · rfl

lemma pointTail_rparen (g s : List Char) :
    pointTail (g ++ ')' :: s) = pointTail g ++ ')' :: s := by
  cases g with
  | nil => rfl
  | cons c g =>
    rw [cons_append, pointTail, pointTail]
    split_ifs
    · exact dropWhile_rparen (by decide) g s
    · rfl

lemma decimalEnd_rparen (g s : List Char) :
    decimalEnd (g ++ ')' :: s) = decimalEnd g ++ ')' :: s := by
  rw [decimalEnd, decimalEnd, dropWhile_rparen (by decide), fractionEnd_rparen,
    exponentEnd_rparen]

lemma lexNumber_rparen (g s : List Char) :
    lexNumber (g ++ ')' :: s) = (lexNumber g).map (· ++ ')' :: s) := by
  have hhead : ∀ t : List Char, (t ++ ')' :: s).head? = some '.' ↔ t.head? = some '.' := by
    intro t
    cases t with
    | nil => simp
    | cons d t => simp
  rw [lexNumber, lexNumber, decimalEnd_rparen, takeWhile_rparen (by decide),
    dropWhile_rparen (by decide), pointTail_rparen]
  simp only [hhead]
  split_ifs <;> rfl

lemma lexOperator_rparen (c : Char) (g s : List Char) :
    lexOperator c (g ++ ')' :: s) =
      (lexOperator c g).map fun (out, rest) => (out, rest ++ ')' :: s) := by
  cases g with
  | nil =>
    rw [nil_append, lexOperator, lexOperator]
    by_cases h1 : c ∈ ['=', '!']
    · have h2 : c ∈ ['=', '!', '<', '>'] := by
        simp only [mem_cons, not_mem_nil, or_false] at h1 ⊢
        tauto
      rw [if_pos h1, if_pos h2, if_neg (by decide), if_pos h1]
      rfl
    · rw [if_neg h1, if_neg (by decide : ¬(')' : Char) = '='), if_neg h1, ite_self]
      rfl
  | cons d g =>
    rw [cons_append, lexOperator, lexOperator]
    split_ifs <;> rfl

lemma isQuote_of_charKind (h : charKind c ≠ .quote) : isQuote c = false := by
  by_contra hc
  exact h (charKind_of_isQuote (by simpa using hc))

lemma lexOne_out (h : lexOne (c :: s) = some (out, r)) :
    (out = [] ∧ (charKind c = .blank ∨ charKind c = .comment)) ∨
      ∃ t, out = [t] ∧ (t = .lparen → c = '(') ∧ (t = .rparen → c = ')') := by
  cases hkind : charKind c <;>
    simp only [lexOne, hkind, Option.map_eq_some_iff, Option.some.injEq, Prod.mk.injEq] at h
  case blank => exact .inl ⟨h.1.symm, .inl rfl⟩
  case comment => exact .inl ⟨h.1.symm, .inr rfl⟩
  case alpha | comma | atSign => exact .inr ⟨_, h.1.symm, by simp, by simp⟩
  case lparen =>
    have hc : c = '(' := eq_of_charKind (by decide) hkind
    exact .inr ⟨_, h.1.symm, fun _ => hc, by simp⟩
  case rparen =>
    have hc : c = ')' := eq_of_charKind (by decide) hkind
    exact .inr ⟨_, h.1.symm, by simp, fun _ => hc⟩
  case quote | rawQuote | digit | lbrace | lbracket =>
    obtain ⟨_, _, hout, _⟩ := h
    exact .inr ⟨_, hout.symm, by simp, by simp⟩
  case point =>
    split_ifs at h
    simp only [Option.map_eq_some_iff, Prod.mk.injEq] at h
    obtain ⟨_, _, hout, _⟩ := h
    exact .inr ⟨_, hout.symm, by simp, by simp⟩
  case operator =>
    obtain ⟨⟨sym, hout⟩, _⟩ := lexOperator_eq_some h
    exact .inr ⟨_, hout, by simp, by simp⟩
  case other => cases h

lemma scanRange_stray (t : List Char) : scanUntil rangeStep .stray t = none := by
  induction t with
  | nil => rfl
  | cons d t ih =>
    have hgo : rangeStep .stray d = some .stray := rfl
    rw [scanUntil_cons_go hgo, ih]
    rfl

lemma scanRange_cons {x : List Char} (hgood : isStray c = false)
    (h : scanUntil rangeStep .code (c :: g) = some (x, r)) :
    (c = ']' ∧ x = [c] ∧ r = g) ∨ (c ≠ ']' ∧ c ≠ '[' ∧ isQuote c = false ∧
      rangeStep .code c = some .code ∧ ∃ y, x = c :: y ∧ scanUntil rangeStep .code g = some (y, r)) := by
  have hsharp : c ≠ '#' := by
    intro heq
    rw [heq] at hgood
    exact absurd hgood (by decide)
  by_cases hend : c = ']'
  · rw [scanUntil_cons_stop (by rw [rangeStep, if_pos hend])] at h
    obtain ⟨rfl, rfl⟩ := Prod.mk.inj (Option.some.inj h)
    exact .inl ⟨hend, rfl, rfl⟩
  · by_cases hforbidden : (isQuote c || c ∈ [backquote, '[', '(', ')', '\x7b', '\x7d']) = true
    · have hgo : rangeStep .code c = some .stray := by
        rw [rangeStep, if_neg hend, if_neg hsharp, if_pos hforbidden]
      rw [scanUntil_cons_go hgo, scanRange_stray] at h
      cases h
    · have hgo : rangeStep .code c = some .code := by
        rw [rangeStep, if_neg hend, if_neg hsharp, if_neg hforbidden]
      rw [Bool.or_eq_true, not_or, decide_eq_true_eq] at hforbidden
      refine .inr ⟨hend, ?_, by simpa using hforbidden.1, hgo, scanUntil_of_go hgo h⟩
      rintro rfl
      exact hforbidden.2 (by decide)

lemma scanRange_rparen {x : List Char} (hbad : ∀ c, isStray c = true → bad c = true)
    (hclosed : Closed bad g) (h : scanUntil rangeStep .code (g ++ ')' :: s) = some (x, r)) :
    ∃ r', r = r' ++ ')' :: s ∧ scanUntil rangeStep .code g = some (x, r') ∧ Closed bad r' := by
  induction g generalizing x with
  | nil =>
    have hgo : rangeStep .code ')' = some .stray := by decide
    rw [nil_append, scanUntil_cons_go hgo, scanRange_stray] at h
    cases h
  | cons c g ih =>
    have hgood : isStray c = false := by
      by_contra hstray
      rw [Bool.not_eq_false] at hstray
      exact absurd (hbad c hstray) (by rw [hclosed.head]; decide)
    rcases scanRange_cons hgood h with ⟨rfl, rfl, rfl⟩ | ⟨_, _, hquote, hgo, y, rfl, hscan⟩
    · exact ⟨g, rfl, rfl, hclosed.of_append_left (a := [']']) (forall_mem_singleton.mpr rfl)⟩
    · obtain ⟨r', hr, hscan', hr'⟩ :=
        ih (hclosed.of_append_left (a := [c]) (by simpa using hquote)) hscan
      refine ⟨r', hr, ?_, hr'⟩
      rw [scanUntil_cons_go hgo, hscan']
      rfl

lemma lexOne_rparen (hbad : ∀ c, isStray c = true → bad c = true) (hc : charKind c ≠ .lbrace)
    (hclosed : Closed bad (c :: g)) (h : lexOne (c :: (g ++ ')' :: s)) = some (out, r)) :
    ∃ r', r = r' ++ ')' :: s ∧ lexOne (c :: g) = some (out, r') ∧ Closed bad r' := by
  have hgood : bad c = false := hclosed.head
  -- Unless the character opens a literal, what it leaves of a closed text is closed.
  have hdrop : ∀ r', charKind c ≠ .quote → Drops (c :: g) r' → Closed bad r' := by
    intro r' hquote hdrops
    obtain ⟨x, hx, hnot⟩ := hdrops
    rw [hx] at hclosed
    exact hclosed.of_append_left hnot
  have hrest : charKind c ≠ .quote → Closed bad g := fun hquote =>
    hdrop g hquote (Drops.cons (isQuote_of_charKind hquote))
  have hnumber : charKind c ≠ .quote →
      (lexNumber (c :: (g ++ ')' :: s))).map (fun r => ([Token.num], r)) = some (out, r) →
      ∃ r', r = r' ++ ')' :: s ∧
        (lexNumber (c :: g)).map (fun r => ([Token.num], r)) = some (out, r') ∧ Closed bad r' := by
    intro hquote h
    rw [← cons_append, lexNumber_rparen, Option.map_map, Option.map_eq_some_iff] at h
    obtain ⟨r', hlex, heq⟩ := h
    simp only [Function.comp_apply, Prod.mk.injEq] at heq
    refine ⟨r', heq.2.symm, by rw [hlex, ← heq.1]; rfl, ?_⟩
    exact hdrop r' hquote ((decimalEnd_drops _).trans (lexNumber_drops hlex))
  cases hkind : charKind c <;> simp only [lexOne, hkind] at h ⊢
  case blank | lparen | rparen | comma | atSign =>
    simp only [Option.some.injEq, Prod.mk.injEq] at h
    refine ⟨g, h.2.symm, ?_, hrest (by rw [hkind]; decide)⟩
    rw [h.1]
  case comment | rawQuote =>
    have hstray : isStray c = true := of_charKind (by decide) (by decide) hkind
    rw [hbad c hstray] at hgood
    exact absurd hgood (by decide)
  case quote =>
    have hquote : isQuote c = true := of_charKind (by decide) (by decide) hkind
    have hrun : runThrough (guardStep bad) (.inside c) g = some .outside := by
      rw [Closed, runThrough, guardStep_of_good fun _ => hgood, Option.bind_some, Quote.next,
        if_pos hquote] at hclosed
      exact hclosed
    obtain ⟨text, r', hscan, hr'⟩ := scanUntil_literal_of_closed (by simp) hrun
    have hg : g = text ++ r' := scanUntil_append hscan
    have hscan' : scanUntil literalStep (.inside c) (g ++ ')' :: s) =
        some (text, r' ++ ')' :: s) := by
      rw [hg, append_assoc]
      exact scanUntil_text_append hscan _
    rw [lexString, hscan'] at h
    rw [lexString, hscan]
    simp only at h ⊢
    split_ifs at h ⊢
    · cases h
    · rw [Option.map_map, Option.map_eq_some_iff] at h
      obtain ⟨value, hvalue, heq⟩ := h
      refine ⟨r', (Prod.mk.inj heq).2.symm, ?_, hr'⟩
      rw [hvalue, ← (Prod.mk.inj heq).1]
      rfl
  case digit => exact hnumber (by rw [hkind]; decide) h
  case point =>
    rw [startsWithDigit_rparen] at h
    split_ifs at h ⊢ with hdigit
    exact hnumber (by rw [hkind]; decide) h
  case alpha =>
    rw [← cons_append, takeWhile_rparen (by decide), dropWhile_rparen (by decide)] at h
    simp only [Option.some.injEq, Prod.mk.injEq] at h
    refine ⟨(c :: g).dropWhile isWordChar, h.2.symm, by rw [h.1], ?_⟩
    exact hdrop _ (by rw [hkind]; decide) (.dropWhile (fun _ => isQuote_of_isWordChar) _)
  case lbrace => exact absurd hkind hc
  case lbracket =>
    obtain ⟨⟨x, r₀⟩, hscan, heq⟩ := Option.map_eq_some_iff.mp h
    simp only [Prod.mk.injEq] at heq
    rw [heq.2] at hscan
    obtain ⟨r', hr, hscan', hr'⟩ :=
      scanRange_rparen hbad (hrest (by rw [hkind]; decide)) hscan
    refine ⟨r', hr, ?_, hr'⟩
    rw [hscan', ← heq.1]
    rfl
  case operator =>
    rw [lexOperator_rparen, Option.map_eq_some_iff] at h
    obtain ⟨⟨out', r'⟩, hlex, heq⟩ := h
    simp only [Prod.mk.injEq] at heq
    refine ⟨r', heq.2.symm, by rw [hlex, heq.1], ?_⟩
    have hg : Closed bad g := hrest (by rw [hkind]; decide)
    rcases (lexOperator_eq_some hlex).2 with rfl | hg'
    · exact hg
    · rw [hg'] at hg
      exact hg.of_append_left (a := ['=']) (forall_mem_singleton.mpr rfl)
  case other => cases h

end

/-! ## Enclosed texts -/

lemma lexes_rparen {g s : List Char} {ts : List Token} (hclosed : Closed isStray g)
    (hbrace : '\x7b' ∉ g) (h : Lexes (g ++ ')' :: s) ts) :
    ∃ te ts', Lexes g te ∧ Lexes s ts' ∧ ts = te ++ .rparen :: ts' := by
  -- By induction on the length: a token leaves a shorter enclosed text.
  induction hn : g.length using Nat.strong_induction_on generalizing g ts with
  | _ n ih =>
    cases g with
    | nil =>
      obtain ⟨out, rest, ts', hone, hrest, rfl⟩ := lexes_cons h
      obtain ⟨rfl, rfl⟩ := Prod.mk.inj (Option.some.inj hone)
      exact ⟨[], ts', .nil, hrest, rfl⟩
    | cons c g =>
      have hc : charKind c ≠ .lbrace := by
        intro hkind
        have heq : c = '\x7b' := eq_of_charKind (by decide) hkind
        rw [heq] at hbrace
        exact hbrace mem_cons_self
      obtain ⟨out, rest, ts', hone, hrest, rfl⟩ := lexes_cons h
      obtain ⟨r', rfl, hone', hr'⟩ := lexOne_rparen (fun _ h => h) hc hclosed hone
      have hsuffix : r' <:+ g := lexOne_suffix hone'
      have hlength : r'.length < n := by
        have hle := hsuffix.length_le
        rw [← hn, length_cons]
        omega
      have hbrace' : '\x7b' ∉ r' := fun hmem =>
        hbrace (mem_cons_of_mem _ (hsuffix.subset hmem))
      obtain ⟨te, ts'', hte, hts'', rfl⟩ := ih r'.length hlength hr' hbrace' hrest rfl
      exact ⟨out ++ te, ts'', .step hone' hte, hts'', by rw [append_assoc]⟩

lemma scan_rparen {b : Bool} {te ts : List Token}
    (h : ∀ w, .word w ∈ te → takesLabels w = false) :
    scan (.place b) (te ++ .rparen :: ts) = scan (.place b) te ++ scan (.place false) ts := by
  induction te generalizing b with
  | nil =>
    rw [nil_append, scan, scan]
    rfl
  | cons t te ih =>
    have hte : ∀ w, .word w ∈ te → takesLabels w = false := fun w hw =>
      h w (mem_cons_of_mem _ hw)
    rw [cons_append]
    cases t with
    | word w =>
      have hw : takesLabels w = false := h w mem_cons_self
      have hfollows : follows (te ++ .rparen :: ts) = follows te := by
        cases te with
        | nil => rfl
        | cons u te => cases u <;> rfl
      simp only [scan_word, hw, hfollows, Bool.false_eq_true, false_and, if_false]
      split_ifs
      · rw [ih hte]
        rfl
      · exact ih hte
      · exact ih hte
    | braces ms =>
      rw [scan, scan, ih hte]
      rfl
    | num | str | range | rparen | lparen | comma | op sym | atSign =>
      rw [scan, scan]
      exact ih hte

/-- Arguments that select nothing: their literals are closed, no comment and no back quote stands
in them, no word of theirs takes labels, and behind an operand they have no selector. -/
def selectsNothing (g : List Char) : Bool :=
  decide (Closed isStray g) &&
    match lex g with
    | none => true
    | some te =>
      (te.all fun t => match t with | .word w => !takesLabels w | _ => true) &&
        (scan (.place false) te).isEmpty

section
variable {P : List Matcher → Prop} {b : Bool} {g s w : List Char}

lemma selects_nothing (hg : selectsNothing g = true) (hbrace : '\x7b' ∉ g)
    (hs : Selects P false s) : Selects P false (g ++ ')' :: s) := by
  rw [selectsNothing, Bool.and_eq_true, decide_eq_true_eq] at hg
  intro ts hts
  obtain ⟨te, ts', hte, hts', rfl⟩ := lexes_rparen hg.1 hbrace hts
  have hcond := hg.2
  rw [lex_eq_some_iff.mpr hte] at hcond
  simp only [Bool.and_eq_true, all_eq_true, List.isEmpty_iff] at hcond
  have hwords : ∀ w, .word w ∈ te → takesLabels w = false := by
    intro w hw
    simpa using hcond.1 _ hw
  rw [scan_rparen hwords, hcond.2]
  exact hs ts' hts'

/-- What cannot stand in a list of labels. -/
def isListEnd (c : Char) : Bool := isStray c || c == ')'

lemma selects_labelList (hclosed : Closed isListEnd g) (hs : Selects P b s) :
    ∀ ts, Lexes (g ++ ')' :: s) ts → ∀ ms ∈ scan (.labels b) ts, P ms := by
  induction hn : g.length using Nat.strong_induction_on generalizing g with
  | _ n ih =>
    intro ts hts
    cases g with
    | nil =>
      obtain ⟨out, rest, ts', hone, hrest, rfl⟩ := lexes_cons hts
      obtain ⟨rfl, rfl⟩ := Prod.mk.inj (Option.some.inj hone)
      rw [singleton_append, scan]
      exact hs ts' hrest
    | cons c g =>
      obtain ⟨out, rest, ts', hone, hrest, rfl⟩ := lexes_cons hts
      by_cases hc : charKind c = .lbrace
      · -- Braces cannot stand in a list of labels.
        simp only [append_eq, lexOne, hc, Option.map_eq_some_iff] at hone
        obtain ⟨⟨ms, rest'⟩, _, heq⟩ := hone
        rw [← (Prod.mk.inj heq).1]
        intro ms' hms'
        exact absurd hms' (by simp [scan])
      · have hbad : ∀ d, isStray d = true → isListEnd d = true := by
          intro d hd
          rw [isListEnd, hd, Bool.true_or]
        obtain ⟨r', rfl, hone', hr'⟩ := lexOne_rparen hbad hc hclosed hone
        have hlength : r'.length < n := by
          have hle := (lexOne_suffix hone').length_le
          rw [← hn, length_cons]
          omega
        have hlist := ih r'.length hlength hr' rfl ts' hrest
        rcases lexOne_out hone' with ⟨rfl, _⟩ | ⟨t, rfl, _, ht⟩
        · exact hlist
        · have hend : c ≠ ')' := by
            intro heq
            rw [Closed, runThrough, Option.bind_eq_some_iff] at hclosed
            obtain ⟨_, hstep, _⟩ := hclosed
            have hgood := (guardStep_eq_some hstep).1 rfl
            rw [heq] at hgood
            exact absurd hgood (by decide)
          rw [singleton_append]
          cases t with
          | rparen => exact absurd (ht rfl) hend
          | word w | str | comma =>
            rw [scan]
            exact hlist
          | num | range | lparen | op sym | atSign | braces ms =>
            intro ms' hms'
            exact absurd hms' (by simp [scan])

lemma lexes_lparen {x : List Char} {ts : List Token} (hx : ∀ c ∈ x, isBlank c = true)
    (h : Lexes (x ++ '(' :: s) ts) : ∃ ts', ts = .lparen :: ts' ∧ Lexes s ts' := by
  induction x generalizing ts with
  | nil =>
    obtain ⟨out, rest, ts', hone, hrest, rfl⟩ := lexes_cons h
    obtain ⟨rfl, rfl⟩ := Prod.mk.inj (Option.some.inj hone)
    exact ⟨ts', rfl, hrest⟩
  | cons c x ih =>
    obtain ⟨out, rest, ts', hone, hrest, rfl⟩ := lexes_cons h
    simp only [append_eq, lexOne, isBlank_charKind (hx c mem_cons_self),
      Option.some.injEq, Prod.mk.injEq] at hone
    obtain ⟨rfl, rfl⟩ := hone
    exact ih (fun d hd => hx d (mem_cons_of_mem _ hd)) hrest

lemma selects_labels {x : List Char} (hw : ∀ c ∈ w, NameChar c) (hdigit : HeadNot isDigit w)
    (hne : w ≠ []) (hlabels : takesLabels w = true) (hx : ∀ c ∈ x, isBlank c = true)
    (hclosed : Closed isListEnd g) (hs : Selects P b s) :
    Selects P b (w ++ (x ++ '(' :: (g ++ ')' :: s))) := by
  intro ts hts
  have hhead : HeadNot isWordChar (x ++ '(' :: (g ++ ')' :: s)) :=
    headNot_blanks hx (headNot_cons (by decide))
  obtain ⟨ts', rfl, hts'⟩ := lexes_name hw hdigit hne hhead hts
  obtain ⟨ts'', rfl, hts''⟩ := lexes_lparen hx hts'
  rw [scan_word, if_pos ⟨hlabels, rfl⟩, scan]
  exact selects_labelList hclosed hs ts'' hts''

end

end KubeWaf.Lib.Promql
