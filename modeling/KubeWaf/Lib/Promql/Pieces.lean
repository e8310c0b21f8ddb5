import KubeWaf.Lib.Promql.Grammar

/-!
# The selectors of a text, piece by piece

A program that writes a query writes it in pieces: a name, a string, braces, a range. Each lemma
here is about one kind of piece in front of any text: if all selectors of that text satisfy a
property, so do those of the piece and the text together.
-/

namespace KubeWaf.Lib.Promql

open List

variable {p : Char → Bool} {t text : List Char} {ts : List Token}

section
variable {P : List Matcher → Prop} {b : Bool} {c : Char} {s rest w : List Char}

/-- All selectors that the automaton finds in a text, from an operand or an operator on, satisfy
the property. -/
def Selects (P : List Matcher → Prop) (operand : Bool) (s : List Char) : Prop :=
  ∀ ts, Lexes s ts → ∀ ms ∈ scan (.place operand) ts, P ms

/-- The text does not start with a character of `p`. -/
def HeadNot (p : Char → Bool) (s : List Char) : Prop := ∀ c t, s = c :: t → p c = false

lemma headNot_nil (p : Char → Bool) : HeadNot p [] := by
  intro c t h
  cases h

lemma headNot_cons (h : p c = false) : HeadNot p (c :: s) := by
  intro d t heq
  rw [List.cons.injEq] at heq
  rw [← heq.1]
  exact h

lemma selects_of_lexOne
    (h : ∀ out rest, lexOne (c :: s) = some (out, rest) →
      ∀ ts, Lexes rest ts → ∀ ms ∈ scan (.place b) (out ++ ts), P ms) :
    Selects P b (c :: s) := by
  intro ts hts
  obtain ⟨out, rest, ts', hone, hrest, rfl⟩ := lexes_cons hts
  exact h out rest hone ts' hrest

lemma selects_nil : Selects P b [] := by
  intro ts hts ms hms
  rw [lexes_nil hts] at hms
  exact absurd hms (by simp [scan])

/-! ## Single characters -/

lemma isBlank_charKind (h : isBlank c = true) : charKind c = .blank := by
  rw [charKind, if_pos h]

lemma selects_blank (hc : isBlank c = true) (hs : Selects P b s) : Selects P b (c :: s) := by
  apply selects_of_lexOne
  intro out rest hone ts hts
  simp only [lexOne, isBlank_charKind hc, Option.some.injEq, Prod.mk.injEq] at hone
  rw [← hone.1, nil_append]
  rw [← hone.2] at hts
  exact hs ts hts

lemma selects_blanks {x : List Char} (hx : ∀ c ∈ x, isBlank c = true) (hs : Selects P b s) :
    Selects P b (x ++ s) := by
  induction x with
  | nil => exact hs
  | cons c x ih =>
    exact selects_blank (hx c mem_cons_self)
      (ih fun d hd => hx d (mem_cons_of_mem _ hd))

lemma selects_single {t : Token} {b' : Bool}
    (hlex : ∀ s, lexOne (c :: s) = some ([t], s))
    (hscan : ∀ ts, scan (.place b) (t :: ts) = scan (.place b') ts) (hs : Selects P b' s) :
    Selects P b (c :: s) := by
  apply selects_of_lexOne
  intro out rest hone ts hts
  rw [hlex, Option.some.injEq, Prod.mk.injEq] at hone
  rw [← hone.1, singleton_append, hscan]
  rw [← hone.2] at hts
  exact hs ts hts

lemma selects_lparen (hs : Selects P true s) : Selects P b ('(' :: s) :=
  selects_single (t := .lparen) (fun _ => rfl) (fun _ => by rw [scan]) hs

lemma selects_rparen (hs : Selects P false s) : Selects P b (')' :: s) :=
  selects_single (t := .rparen) (fun _ => rfl) (fun _ => by rw [scan]) hs

lemma selects_comma (hs : Selects P true s) : Selects P b (',' :: s) :=
  selects_single (t := .comma) (fun _ => rfl) (fun _ => by rw [scan]) hs

lemma selects_atSign (hs : Selects P true s) : Selects P b ('@' :: s) :=
  selects_single (t := .atSign) (fun _ => rfl) (fun _ => by rw [scan]) hs

lemma lexOperator_eq_some {out : List Token} (h : lexOperator c s = some (out, rest)) :
    (∃ sym, out = [.op sym]) ∧ (rest = s ∨ s = '=' :: rest) := by
  unfold lexOperator at h
  split at h
  · split_ifs at h
    simp only [Option.some.injEq, Prod.mk.injEq] at h
    exact ⟨⟨_, h.1.symm⟩, .inl h.2.symm⟩
  · rename_i d s
    split_ifs at h with h1 h2 h3 <;> simp at h
    · exact ⟨⟨_, h.1.symm⟩, .inr (by rw [h2, h.2])⟩
    · exact ⟨⟨_, h.1.symm⟩, .inl h.2.symm⟩
    · exact ⟨⟨_, h.1.symm⟩, .inl h.2.symm⟩

lemma selects_operator (hc : charKind c = .operator) (hs : Selects P true s)
    (heq : ∀ s', s = '=' :: s' → Selects P true s') : Selects P b (c :: s) := by
  apply selects_of_lexOne
  intro out rest hone ts hts
  simp only [lexOne, hc] at hone
  obtain ⟨⟨sym, rfl⟩, hrest⟩ := lexOperator_eq_some hone
  rw [singleton_append, scan]
  rcases hrest with rfl | hrest
  · exact hs ts hts
  · exact heq rest hrest ts hts

lemma selects_other (hc : charKind c = .other) : Selects P b (c :: s) := by
  apply selects_of_lexOne
  intro out rest hone
  simp only [lexOne, hc] at hone
  cases hone

lemma selects_point (hs : startsWithDigit s = false) : Selects P b ('.' :: s) := by
  apply selects_of_lexOne
  intro out rest hone
  have hkind : charKind '.' = .point := by decide
  simp only [lexOne, hkind, hs] at hone
  cases hone

/-! ## Strings, braces and ranges -/

lemma charKind_of_isQuote (h : isQuote c = true) : charKind c = .quote := by
  have hc : c = '"' ∨ c = '\'' := by simpa [isQuote] using h
  rcases hc with rfl | rfl <;> decide

lemma selects_quoted {q rest : List Char} (hc : isQuote c = true)
    (hscan : scanUntil literalStep .outside (c :: q) = some (text, rest)) (hs : Selects P false s) :
    Selects P b (text ++ s) := by
  have hopen : literalStep .outside c = some (.inside c) := by
    rw [literalStep, Quote.next, if_pos hc]
  obtain ⟨body, rfl, hbody⟩ := scanUntil_of_go hopen hscan
  rw [cons_append]
  apply selects_of_lexOne
  intro out rest hone ts hts
  simp only [lexOne, charKind_of_isQuote hc, lexString, scanUntil_text_append hbody s] at hone
  by_cases hline : '\n' ∈ body
  · rw [if_pos hline] at hone
    cases hone
  · rw [if_neg hline, Option.map_map, Option.map_eq_some_iff] at hone
    obtain ⟨value, _, heq⟩ := hone
    simp only [Function.comp_apply, Prod.mk.injEq] at heq
    rw [← heq.1, singleton_append, scan]
    rw [← heq.2] at hts
    exact hs ts hts

lemma selects_braces
    (htext : ∀ ms rest, lexBraces (text ++ s) = some (ms, rest) → rest = s ∧ P ms)
    (hs : Selects P false s) : Selects P b ('\x7b' :: (text ++ s)) := by
  apply selects_of_lexOne
  intro out rest hone ts hts
  have hkind : charKind '\x7b' = .lbrace := by decide
  simp only [lexOne, hkind, Option.map_eq_some_iff] at hone
  obtain ⟨⟨ms, rest'⟩, hlex, heq⟩ := hone
  simp only [Prod.mk.injEq] at heq
  obtain ⟨hrest, hms⟩ := htext ms rest' hlex
  rw [← heq.1, singleton_append, scan]
  rw [← heq.2, hrest] at hts
  intro ms' hmem
  rcases mem_cons.mp hmem with rfl | hmem
  · exact hms
  · exact hs ts hts ms' hmem

lemma selects_range
    (htext : ∀ x rest, scanUntil rangeStep .code (text ++ s) = some (x, rest) → rest = s)
    (hs : Selects P false s) : Selects P b ('[' :: (text ++ s)) := by
  apply selects_of_lexOne
  intro out rest hone ts hts
  have hkind : charKind '[' = .lbracket := by decide
  simp only [lexOne, hkind, Option.map_eq_some_iff] at hone
  obtain ⟨⟨x, rest'⟩, hscan, heq⟩ := hone
  simp only [Prod.mk.injEq] at heq
  rw [← heq.1, singleton_append, scan]
  rw [← heq.2, htext x rest' hscan] at hts
  exact hs ts hts

/-! ## Words -/

lemma not_lexes_large (hc : 128 ≤ c.toNat) : ¬Lexes (c :: s) ts := by
  intro h
  obtain ⟨out, rest, ts', hone, _⟩ := lexes_cons h
  simp only [lexOne, charKind_eq_other hc] at hone
  cases hone

/-- A character that some reader takes for one of a name. -/
def NameChar (c : Char) : Prop := isWordChar c = true ∨ 128 ≤ c.toNat

lemma charKind_of_isWordChar (h : isWordChar c = true) (hdigit : isDigit c = false) :
    charKind c = .alpha := by
  have hall : ∀ n : Fin 128, isWordChar (Char.ofNat n) = true → isDigit (Char.ofNat n) = false →
      charKind (Char.ofNat n) = .alpha := by decide
  have hsmall : c.toNat < 128 := by
    rw [isWordChar, isAlnum, Bool.or_eq_true, Bool.or_eq_true, isAlpha_iff, isDigit_iff,
      beq_iff_eq] at h
    rcases h with (h | h) | h
    · omega
    · omega
    · rw [h]
      decide
  exact forall_ascii (P := fun c => isWordChar c = true → isDigit c = false → charKind c = .alpha)
    hall hsmall h hdigit

lemma charKind_of_isDigit (h : isDigit c = true) : charKind c = .digit := by
  have hall : ∀ n : Fin 128, isDigit (Char.ofNat n) = true → charKind (Char.ofNat n) = .digit := by
    decide
  have hsmall : c.toNat < 128 := by
    rw [isDigit_iff] at h
    omega
  exact forall_ascii (P := fun c => isDigit c = true → charKind c = .digit) hall hsmall h

lemma dropWhile_eq_self (h : HeadNot p s) : s.dropWhile p = s := by
  cases s with
  | nil => rfl
  | cons c s =>
    have hc : p c = false := h c s rfl
    rw [dropWhile_cons_of_neg (by rw [hc]; decide)]

lemma takeWhile_eq_nil (h : HeadNot p s) : s.takeWhile p = [] := by
  cases s with
  | nil => rfl
  | cons c s =>
    have hc : p c = false := h c s rfl
    rw [takeWhile_cons_of_neg (by rw [hc]; decide)]

lemma lexes_name (hw : ∀ c ∈ w, NameChar c) (hdigit : HeadNot isDigit w) (hne : w ≠ [])
    (hs : HeadNot isWordChar s) (h : Lexes (w ++ s) ts) :
    ∃ ts', ts = .word w :: ts' ∧ Lexes s ts' := by
  cases w with
  | nil => exact absurd rfl hne
  | cons c w =>
    rcases hw c mem_cons_self with hc | hc
    · rw [cons_append] at h
      obtain ⟨out, rest, ts', hone, hrest, rfl⟩ := lexes_cons h
      simp only [lexOne, charKind_of_isWordChar hc (hdigit c w rfl), Option.some.injEq,
        Prod.mk.injEq, ← cons_append] at hone
      by_cases hall : ∀ d ∈ c :: w, isWordChar d = true
      · rw [takeWhile_append_of_pos hall, takeWhile_eq_nil hs, append_nil,
          dropWhile_append_of_pos hall, dropWhile_eq_self hs] at hone
        rw [← hone.1]
        rw [← hone.2] at hrest
        exact ⟨ts', rfl, hrest⟩
      · -- The word stops at a character beyond ASCII, and nothing can be read there.
        have hstop : (c :: w).dropWhile isWordChar ≠ [] := by
          rw [Ne, dropWhile_eq_nil_iff]
          exact hall
        obtain ⟨d, w', hd⟩ := exists_cons_of_ne_nil hstop
        have hnot : isWordChar d ≠ true := by
          have hhead := head_dropWhile_not isWordChar hstop
          simp only [hd, head_cons] at hhead
          rw [hhead]
          decide
        have hmem : d ∈ c :: w :=
          (dropWhile_suffix isWordChar).subset (by rw [hd]; exact mem_cons_self)
        rw [dropWhile_append, hd] at hone
        simp only [isEmpty_cons, Bool.false_eq_true, if_false] at hone
        rw [← hone.2] at hrest
        rcases hw d hmem with hd' | hd'
        · exact absurd hd' hnot
        · exact absurd hrest (not_lexes_large hd')
    · exact absurd h (not_lexes_large hc)

/-- In front of such a text, a name at an operand is no metric on its own. -/
def NoFollow (s : List Char) : Prop := ∀ ts, Lexes s ts → follows ts = false

lemma selects_name (hw : ∀ c ∈ w, NameChar c) (hdigit : HeadNot isDigit w)
    (hs : HeadNot isWordChar s) (hkind : wordKind w = .plain) (hfollow : b = false ∨ NoFollow s)
    (hsel : Selects P b s) : Selects P b (w ++ s) := by
  by_cases hne : w = []
  · rw [hne]
    exact hsel
  · intro ts hts
    obtain ⟨ts', rfl, hts'⟩ := lexes_name hw hdigit hne hs hts
    have hcond : b = false ∨ follows ts' = false := by
      rcases hfollow with h | h
      · exact .inl h
      · exact .inr (h ts' hts')
    rw [scan_plain hkind hcond]
    exact hsel ts' hts'

lemma noFollow_blank (hc : isBlank c = true) (h : NoFollow s) : NoFollow (c :: s) := by
  intro ts hts
  obtain ⟨out, rest, ts', hone, hrest, rfl⟩ := lexes_cons hts
  simp only [lexOne, isBlank_charKind hc, Option.some.injEq, Prod.mk.injEq] at hone
  rw [← hone.1, nil_append]
  rw [← hone.2] at hrest
  exact h ts' hrest

lemma noFollow_lparen : NoFollow ('(' :: s) := by
  intro ts hts
  obtain ⟨out, rest, ts', hone, _, rfl⟩ := lexes_cons hts
  have hout : [Token.lparen] = out := (Prod.mk.inj (Option.some.inj hone)).1
  rw [← hout]
  rfl

lemma lexes_lbrace (h : Lexes ('\x7b' :: s) ts) : ∃ ms ts', ts = .braces ms :: ts' := by
  obtain ⟨out, rest, ts', hone, _, rfl⟩ := lexes_cons h
  have hkind : charKind '\x7b' = .lbrace := by decide
  simp only [lexOne, hkind, Option.map_eq_some_iff] at hone
  obtain ⟨⟨ms, rest'⟩, _, heq⟩ := hone
  rw [← (Prod.mk.inj heq).1]
  exact ⟨ms, ts', rfl⟩

lemma noFollow_lbrace : NoFollow ('\x7b' :: s) := by
  intro ts hts
  obtain ⟨ms, ts', rfl⟩ := lexes_lbrace hts
  rfl

lemma selects_metric (hw : ∀ c ∈ w, NameChar c) (hdigit : HeadNot isDigit w)
    (hs : ∃ t, s = '\x7b' :: t) (hsel : ∀ b', Selects P b' s) : Selects P b (w ++ s) := by
  by_cases hne : w = []
  · rw [hne]
    exact hsel b
  · intro ts hts
    obtain ⟨t, rfl⟩ := hs
    obtain ⟨ts', rfl, hts'⟩ := lexes_name hw hdigit hne (headNot_cons (by decide)) hts
    obtain ⟨ms, ts'', rfl⟩ := lexes_lbrace hts'
    rw [scan_word, if_neg (by simp [startsParen]), if_neg (by simp [follows])]
    split_ifs
    · exact hsel _ _ hts'
    · exact hsel _ _ hts'

lemma noFollow_name (hw : ∀ c ∈ w, NameChar c) (hdigit : HeadNot isDigit w) (hne : w ≠ [])
    (hs : HeadNot isWordChar s)
    (hkind : wordKind w ∉ [WordKind.setOperator, .atan2, .offset]) : NoFollow (w ++ s) := by
  intro ts hts
  obtain ⟨ts', rfl, _⟩ := lexes_name hw hdigit hne hs hts
  simpa [follows] using hkind

lemma false_of_isBlank {p : Char → Bool} (hp : [' ', '\t', '\n', '\r'].all (!p ·) = true)
    (h : isBlank c = true) : p c = false := by
  have hc : c = ' ' ∨ c = '\t' ∨ c = '\n' ∨ c = '\r' := by simpa [isBlank, or_assoc] using h
  simpa using all_eq_true.mp hp c (by simpa using hc)

lemma isWordChar_of_isBlank (h : isBlank c = true) : isWordChar c = false :=
  false_of_isBlank (by decide) h

lemma headNot_blanks {x : List Char} (hx : ∀ c ∈ x, isBlank c = true)
    (hs : HeadNot isWordChar s) : HeadNot isWordChar (x ++ s) := by
  cases x with
  | nil => exact hs
  | cons c x => exact headNot_cons (isWordChar_of_isBlank (hx c mem_cons_self))

/-- What a word takes for its labels in front of such a text has no other selectors. -/
def NoLabels (P : List Matcher → Prop) (operand : Bool) (s : List Char) : Prop :=
  ∀ ts, Lexes s ts → startsParen ts = true → ∀ ms ∈ scan (.opening operand) ts, P ms

lemma afterWord_of_isMetricName (h : isMetricName w = true) : afterWord true w = true := by
  rw [isMetricName, decide_eq_true_eq] at h
  rw [afterWord]
  revert h
  cases wordKind w <;> decide

lemma selects_keyword (hw : ∀ c ∈ w, NameChar c) (hdigit : HeadNot isDigit w) (hne : w ≠ [])
    (hs : HeadNot isWordChar s) (hlabels : takesLabels w = true → NoLabels P b s)
    (hmetric : b = true → isMetricName w = true → NoFollow s)
    (hsel : Selects P (afterWord b w) s) : Selects P b (w ++ s) := by
  intro ts hts
  obtain ⟨ts', rfl, hts'⟩ := lexes_name hw hdigit hne hs hts
  rw [scan_word]
  by_cases htakes : takesLabels w = true ∧ startsParen ts' = true
  · rw [if_pos htakes]
    exact hlabels htakes.1 ts' hts' htakes.2
  · rw [if_neg htakes]
    by_cases hname : b = true ∧ isMetricName w = true
    · have hfollow : follows ts' = false := hmetric hname.1 hname.2 ts' hts'
      rw [if_neg (by simp [hfollow]), if_pos hname]
      rw [hname.1, afterWord_of_isMetricName hname.2] at hsel
      exact hsel ts' hts'
    · rw [if_neg (fun h => hname ⟨h.1, h.2.1⟩), if_neg hname]
      exact hsel ts' hts'

/-! ## Numbers -/

/-- Behind a number, `s'` can stand in the place of `s` without becoming part of it. -/
structure Continues (s s' : List Char) : Prop where
  digit : HeadNot isDigit s'
  point : HeadNot (· == '.') s → HeadNot (· == '.') s'
  exponent : exponentEnd s = s → exponentEnd s' = s'

lemma headNot_dropWhile (p : Char → Bool) (s : List Char) : HeadNot p (s.dropWhile p) := by
  intro c t h
  have hne : s.dropWhile p ≠ [] := by rw [h]; simp
  have hhead := head_dropWhile_not p hne
  simpa [h] using hhead

lemma dropWhile_takeWhile_append (s : List Char) {y : List Char} (hy : HeadNot p y) :
    (s.takeWhile p ++ y).dropWhile p = y := by
  rw [dropWhile_append_of_pos fun c hc => mem_takeWhile_imp hc, dropWhile_eq_self hy]

lemma fractionEnd_eq_self (h : HeadNot (· == '.') s) : fractionEnd s = s := by
  cases s with
  | nil => rfl
  | cons c s =>
    have hc := h c s rfl
    rw [fractionEnd, if_neg (by simpa using hc)]

lemma fractionEnd_replace (s : List Char) : ∃ f, s = f ++ fractionEnd s ∧
    ∀ y, HeadNot isDigit y → (HeadNot (· == '.') (fractionEnd s) → HeadNot (· == '.') y) →
      fractionEnd (f ++ y) = y ∧ (f = [] ∨ HeadNot isDigit (f ++ y)) := by
  by_cases hpoint : HeadNot (· == '.') s
  · rw [fractionEnd_eq_self hpoint]
    exact ⟨[], rfl, fun y _ hy => ⟨fractionEnd_eq_self (hy hpoint), .inl rfl⟩⟩
  · cases s with
    | nil => exact absurd (headNot_nil _) hpoint
    | cons c s =>
      have hc : c = '.' := by
        by_contra hne
        exact hpoint (headNot_cons (by simpa using hne))
      refine ⟨c :: s.takeWhile isDigit, ?_, ?_⟩
      · rw [fractionEnd, if_pos hc, cons_append, takeWhile_append_dropWhile]
      · intro y hdigit _
        refine ⟨?_, .inr (headNot_cons (by rw [hc]; decide))⟩
        rw [cons_append, fractionEnd, if_pos hc, dropWhile_takeWhile_append s hdigit]

lemma exponentEnd_replace (s : List Char) : ∃ x, s = x ++ exponentEnd s ∧
    ∀ y, HeadNot isDigit y → (exponentEnd (exponentEnd s) = exponentEnd s → exponentEnd y = y) →
      exponentEnd (x ++ y) = y ∧
        (x = [] ∨ (HeadNot isDigit (x ++ y) ∧ HeadNot (· == '.') (x ++ y))) := by
  cases s with
  | nil => exact ⟨[], rfl, fun y _ hy => ⟨hy rfl, .inl rfl⟩⟩
  | cons c s =>
    by_cases hc : (c = 'e' ∨ c = 'E') ∧ startsWithDigit (signEnd s) = true
    · -- The exponent is the letter, the sign if there is one, and the digits.
      obtain ⟨sign, hsign, hsigned⟩ : ∃ sign, s = sign ++ signEnd s ∧
          ∀ y, signEnd (sign ++ ((signEnd s).takeWhile isDigit ++ y)) =
            (signEnd s).takeWhile isDigit ++ y := by
        cases s with
        | nil => exact absurd hc.2 (by decide)
        | cons d s =>
          by_cases hd : d = '+' ∨ d = '-'
          · refine ⟨[d], by rw [signEnd, if_pos hd]; rfl, ?_⟩
            intro y
            rw [singleton_append, signEnd, if_pos hd]
          · have hdigit : isDigit d = true := by
              have h := hc.2
              rwa [signEnd, if_neg hd] at h
            refine ⟨[], by rw [signEnd, if_neg hd]; rfl, ?_⟩
            intro y
            rw [signEnd, if_neg hd, takeWhile_cons_of_pos hdigit, nil_append,
              cons_append, signEnd, if_neg hd]
      refine ⟨c :: (sign ++ (signEnd s).takeWhile isDigit), ?_, ?_⟩
      · rw [exponentEnd, if_pos hc, cons_append, append_assoc, takeWhile_append_dropWhile, ← hsign]
      · intro y hdigit _
        have hletter : isDigit c = false ∧ (c == '.') = false := by
          rcases hc.1 with rfl | rfl <;> decide
        refine ⟨?_, .inr ⟨headNot_cons hletter.1, headNot_cons hletter.2⟩⟩
        have hstarts : startsWithDigit ((signEnd s).takeWhile isDigit ++ y) = true := by
          cases hend : signEnd s with
          | nil =>
            rw [hend] at hc
            exact absurd hc.2 (by decide)
          | cons d t =>
            rw [hend] at hc
            have hd : isDigit d = true := hc.2
            rw [takeWhile_cons_of_pos hd, cons_append]
            exact hd
        rw [cons_append, exponentEnd, append_assoc, hsigned, if_pos ⟨hc.1, hstarts⟩,
          dropWhile_takeWhile_append _ hdigit]
    · have hself : exponentEnd (c :: s) = c :: s := by rw [exponentEnd, if_neg hc]
      refine ⟨[], by rw [hself]; rfl, ?_⟩
      intro y _ hy
      rw [hself] at hy
      exact ⟨hy hself, .inl rfl⟩

lemma decimalEnd_replace {s s' : List Char} (h : decimalEnd (t ++ s) = s) (hs : Continues s s') :
    decimalEnd (t ++ s') = s' := by
  obtain ⟨f, hf, hfraction⟩ := fractionEnd_replace ((t ++ s).dropWhile isDigit)
  obtain ⟨x, hx, hexponent⟩ := exponentEnd_replace (fractionEnd ((t ++ s).dropWhile isDigit))
  rw [decimalEnd] at h
  rw [h] at hx hexponent
  rw [hx] at hf hfraction
  have ht : t = (t ++ s).takeWhile isDigit ++ f ++ x := by
    have hall : t ++ s = (t ++ s).takeWhile isDigit ++ (f ++ (x ++ s)) := by
      rw [← hf, takeWhile_append_dropWhile]
    rw [← append_assoc, ← append_assoc, append_left_inj] at hall
    exact hall
  obtain ⟨hex, hexhead⟩ := hexponent s' hs.digit hs.exponent
  have hdigit : HeadNot isDigit (x ++ s') := by
    rcases hexhead with rfl | hhead
    · exact hs.digit
    · exact hhead.1
  have hpoint : HeadNot (· == '.') (x ++ s) → HeadNot (· == '.') (x ++ s') := by
    rcases hexhead with rfl | hhead
    · exact hs.point
    · exact fun _ => hhead.2
  obtain ⟨hfr, hfrhead⟩ := hfraction (x ++ s') hdigit hpoint
  have hdigit' : HeadNot isDigit (f ++ (x ++ s')) := by
    rcases hfrhead with rfl | hhead
    · exact hdigit
    · exact hhead
  rw [decimalEnd, ht, append_assoc, append_assoc,
    dropWhile_takeWhile_append (t ++ s) hdigit', hfr, hex]

/-- What a number leaves of a text whose first letters it takes for a unit or for digits. -/
def Absorbs (P : List Matcher → Prop) (s : List Char) : Prop :=
  ∀ tail rest, s = tail ++ rest → tail ≠ [] → (∀ c ∈ tail, isAlnum c = true) →
    HeadNot isDigit tail → HeadNot isAlnum rest → numberTail tail = true →
    Selects P false (pointTail rest)

lemma selects_number (hc : charKind c = .digit ∨ charKind c = .point)
    (hend : decimalEnd (c :: t ++ s) = s) (hdigit : HeadNot isDigit s) (hs : Selects P false s)
    (habsorbs : Absorbs P s) : Selects P b (c :: t ++ s) := by
  rw [cons_append] at hend ⊢
  apply selects_of_lexOne
  intro out rest hone ts hts
  have hnumber : out = [.num] ∧ lexNumber (c :: (t ++ s)) = some rest := by
    rcases hc with hc | hc
    · simp only [lexOne, hc, Option.map_eq_some_iff, Prod.mk.injEq] at hone
      obtain ⟨_, hlex, rfl, rfl⟩ := hone
      exact ⟨rfl, hlex⟩
    · simp only [lexOne, hc] at hone
      split_ifs at hone
      simp only [Option.map_eq_some_iff, Prod.mk.injEq] at hone
      obtain ⟨_, hlex, rfl, rfl⟩ := hone
      exact ⟨rfl, hlex⟩
  obtain ⟨rfl, hlex⟩ := hnumber
  rw [singleton_append, scan]
  rw [lexNumber, hend] at hlex
  by_cases htail : s.takeWhile isAlnum = []
  · rw [if_pos htail] at hlex
    split_ifs at hlex
    rw [← Option.some.inj hlex] at hts
    exact hs ts hts
  · rw [if_neg htail] at hlex
    split_ifs at hlex with hnumberTail
    rw [← Option.some.inj hlex] at hts
    refine habsorbs (s.takeWhile isAlnum) (s.dropWhile isAlnum)
      (takeWhile_append_dropWhile).symm htail (fun c hc => mem_takeWhile_imp hc) ?_
      (headNot_dropWhile _ _) hnumberTail ts hts
    intro d t' htake
    have hprefix : s.takeWhile isAlnum <+: s := takeWhile_prefix _
    rw [htake] at hprefix
    obtain ⟨u, hu⟩ := hprefix
    exact hdigit d (t' ++ u) (by rw [← hu]; rfl)

/-! ## Names behind numbers -/

lemma selects_large (hc : 128 ≤ c.toNat) : Selects P b (c :: s) :=
  fun _ hts => absurd hts (not_lexes_large hc)

lemma wordKind_colon (w : List Char) : wordKind (':' :: w) = .plain := by
  have hcolon : Go.toLower ':' = ':' := by decide
  rw [wordKind, lower, map_cons, hcolon]
  rfl

/-- A name in front of a text that it cannot run into. -/
def EndsName (s : List Char) : Prop :=
  ∃ c t, s = c :: t ∧ (c = '(' ∨ c = '\x7b' ∨ isBlank c = true)

lemma EndsName.headNot (h : EndsName s) {p : Char → Bool} (hparen : p '(' = false)
    (hbrace : p '\x7b' = false) (hblank : ∀ c, isBlank c = true → p c = false) : HeadNot p s := by
  obtain ⟨c, t, rfl, rfl | rfl | hc⟩ := h
  · exact headNot_cons hparen
  · exact headNot_cons hbrace
  · exact headNot_cons (hblank c hc)

lemma EndsName.word (h : EndsName s) : HeadNot isWordChar s :=
  h.headNot (by decide) (by decide) fun _ => isWordChar_of_isBlank

lemma isAlnum_of_isBlank (h : isBlank c = true) : isAlnum c = false :=
  false_of_isBlank (by decide) h

lemma exists_tail_of_append {tail : List Char} (htail : ∀ c ∈ tail, isAlnum c = true)
    (ht : HeadNot isAlnum t) (h : w ++ t = tail ++ rest) :
    ∃ w', w = tail ++ w' ∧ rest = w' ++ t := by
  rcases append_eq_append_iff.mp h with ⟨x, hx, hr⟩ | ⟨w', hw', hr⟩
  · cases x with
    | nil => exact ⟨[], by simpa using hx.symm, by simpa using hr.symm⟩
    | cons c x =>
      have hc : isAlnum c = true := htail c (by rw [hx]; simp)
      rw [ht c (x ++ rest) (by rw [hr]; rfl)] at hc
      exact absurd hc (by decide)
  · exact ⟨w', hw', hr⟩

lemma pointTail_eq_self (h : HeadNot (· == '.') s) : pointTail s = s := by
  cases s with
  | nil => rfl
  | cons c s =>
    have hc := h c s rfl
    rw [pointTail, if_neg (by simpa using hc)]

lemma selects_pointTail_large (hc : 128 ≤ c.toNat) : Selects P b (pointTail (c :: s)) := by
  have hne : c ≠ '.' := by
    rintro rfl
    exact absurd hc (by decide)
  rw [pointTail_eq_self (headNot_cons (by simpa using hne))]
  exact selects_large hc

lemma absorbs_name (hw : ∀ c ∈ w, NameChar c) (ht : EndsName t) (hsel : Selects P false t) :
    Absorbs P (w ++ t) := by
  intro tail rest heq _ hall _ hrest _
  have halnum : HeadNot isAlnum t :=
    ht.headNot (by decide) (by decide) fun _ => isAlnum_of_isBlank
  obtain ⟨w', rfl, rfl⟩ := exists_tail_of_append hall halnum heq
  cases w' with
  | nil =>
    have hpoint : HeadNot (· == '.') t := by
      exact ht.headNot (by decide) (by decide) fun c =>
        false_of_isBlank (p := (· == '.')) (by decide)
    rw [nil_append, pointTail_eq_self hpoint]
    exact hsel
  | cons c w' =>
    have hname : NameChar c := hw c (by simp)
    have hnot : isAlnum c = false := hrest c (w' ++ t) rfl
    rcases hname with hc | hc
    · have hcolon : c = ':' := by
        rw [isWordChar, hnot, Bool.false_or, beq_iff_eq] at hc
        exact hc
      rw [cons_append, pointTail_eq_self (headNot_cons (by rw [hcolon]; decide)),
        ← cons_append]
      refine selects_name ?_ (headNot_cons (by rw [hcolon]; decide)) ht.word ?_ (.inl rfl) hsel
      · intro d hd
        exact hw d (mem_append_right _ hd)
      · rw [hcolon]
        exact wordKind_colon w'
    · exact selects_pointTail_large hc

lemma isDurationChar_toLower (h : isDurationChar c = true) :
    isDurationChar (Go.toLower c) = true := by
  have hsmall : c.toNat < 128 := by
    rw [isDurationChar, Bool.or_eq_true, isDigit_iff, decide_eq_true_eq] at h
    rcases h with h | h
    · omega
    · simp only [mem_cons, not_mem_nil, or_false] at h
      rcases h with rfl | rfl | rfl | rfl | rfl | rfl <;> decide
  have hall : ∀ n : Fin 128, isDurationChar (Char.ofNat n) = true →
      isDurationChar (Go.toLower (Char.ofNat n)) = true := by decide
  exact forall_ascii
    (P := fun c => isDurationChar c = true → isDurationChar (Go.toLower c) = true) hall hsmall h

lemma isHexChar_toLower (h : isHexChar c = true) (hc : isAlnum c = true) :
    isHexChar (Go.toLower c) = true := by
  have hsmall : c.toNat < 128 := by
    rw [isAlnum, Bool.or_eq_true, isAlpha_iff, isDigit_iff] at hc
    omega
  have hall : ∀ n : Fin 128, isHexChar (Char.ofNat n) = true →
      isHexChar (Go.toLower (Char.ofNat n)) = true := by decide
  exact forall_ascii (P := fun c => isHexChar c = true → isHexChar (Go.toLower c) = true) hall
    hsmall h

lemma exists_keyword (h : wordKind w ≠ .plain) : ∃ k ∈ keywords, k.1 = lower w := by
  by_contra hnone
  push Not at hnone
  apply h
  rw [wordKind, lookup_eq_none_iff.mpr]
  · rfl
  · intro k hk
    simpa using (hnone k hk).symm

lemma numberTail_keyword (hw : ∀ c ∈ w, isAlnum c = true) (hkind : wordKind w ≠ .plain) :
    numberTail w = false := by
  have hall : ∀ k ∈ keywords, numberTail k.1 = false := by decide
  obtain ⟨k, hk, hlower⟩ := exists_keyword hkind
  have hfalse := hall k hk
  rw [hlower] at hfalse
  by_contra htrue
  rw [Bool.not_eq_false, numberTail, Bool.or_eq_true, all_eq_true, all_eq_true] at htrue
  rw [numberTail, Bool.or_eq_false_iff, lower, ← Bool.not_eq_true, ← Bool.not_eq_true,
    all_eq_true, all_eq_true] at hfalse
  rcases htrue with htrue | htrue
  · apply hfalse.1
    intro d hd
    obtain ⟨c, hc, rfl⟩ := mem_map.mp hd
    exact isDurationChar_toLower (htrue c hc)
  · apply hfalse.2
    intro d hd
    obtain ⟨c, hc, rfl⟩ := mem_map.mp hd
    exact isHexChar_toLower (htrue c hc) (hw c hc)

lemma absorbs_keyword (hw : ∀ c ∈ w, NameChar c) (hkind : wordKind w ≠ .plain)
    (ht : HeadNot isAlnum t) : Absorbs P (w ++ t) := by
  intro tail rest heq _ hall _ hrest hnumber
  obtain ⟨w', rfl, rfl⟩ := exists_tail_of_append hall ht heq
  cases w' with
  | nil =>
    rw [append_nil] at hkind
    rw [numberTail_keyword hall hkind] at hnumber
    exact absurd hnumber (by decide)
  | cons c w' =>
    have hname : NameChar c := hw c (by simp)
    have hnot : isAlnum c = false := hrest c (w' ++ t) rfl
    rcases hname with hc | hc
    · -- Keywords have no colons.
      have hcolon : c = ':' := by
        rw [isWordChar, hnot, Bool.false_or, beq_iff_eq] at hc
        exact hc
      obtain ⟨k, hk, hlower⟩ := exists_keyword hkind
      have hnone : ∀ k ∈ keywords, ':' ∉ k.1 := by decide
      refine absurd ?_ (hnone k hk)
      rw [hlower, lower, mem_map]
      exact ⟨':', by rw [hcolon]; simp, by decide⟩
    · exact selects_pointTail_large hc

lemma absorbs_of_head (h : HeadNot isAlpha s) : Absorbs P s := by
  intro tail rest heq hne hall hdigit _ _
  cases tail with
  | nil => exact absurd rfl hne
  | cons c tail =>
    have hc := hall c mem_cons_self
    rw [isAlnum, h c (tail ++ rest) heq, hdigit c tail rfl] at hc
    exact absurd hc (by decide)

end

end KubeWaf.Lib.Promql
