import KubeWaf.Lib.Promql.Enclosed
import KubeWaf.Lib.GoBytes

/-!
# Printing vector selectors

The text that Prometheus prints for a vector selector, with the values of its matchers in double
quotes. The lexer reads it back, whatever stands behind it.
-/

namespace KubeWaf.Lib.Promql

open List

variable {w s : List Char} {ms : List Matcher} (isPrint : ℕ → Bool)

/-! ## Texts -/

def MatchOp.text : MatchOp → List Char
  | .eq => ['=']
  | .ne => ['!', '=']
  | .re => ['=', '~']
  | .nre => ['!', '~']

/-- The text of a matcher. `isPrint` is that of the quoting. -/
def Matcher.text (isPrint : ℕ → Bool) (m : Matcher) : List Char :=
  m.name ++ (m.op.text ++ Go.quote isPrint m.value)

/-- The text between the braces of a selector. -/
def matchersText (isPrint : ℕ → Bool) (ms : List Matcher) : List Char :=
  Go.join [','] (ms.map (Matcher.text isPrint))

/-- The braces of a selector. -/
def bracesText (isPrint : ℕ → Bool) (ms : List Matcher) : List Char :=
  '\x7b' :: (matchersText isPrint ms ++ ['\x7d'])

/-- A name that can stand for a label without quotes. -/
structure IsLabel (w : List Char) : Prop where
  chars : ∀ c ∈ w, isAlnum c = true
  digit : HeadNot isDigit w
  ne_nil : w ≠ []

/-- A name that can stand for a metric. -/
structure IsName (w : List Char) : Prop where
  chars : ∀ c ∈ w, isWordChar c = true
  digit : HeadNot isDigit w
  ne_nil : w ≠ []

lemma IsLabel.exists_cons (h : IsLabel w) : ∃ c t, w = c :: t ∧ isAlpha c = true := by
  obtain ⟨c, t, rfl⟩ := exists_cons_of_ne_nil h.ne_nil
  have hc := h.chars c mem_cons_self
  rw [isAlnum, h.digit c t rfl, Bool.or_false] at hc
  exact ⟨c, t, rfl, hc⟩

lemma IsName.exists_cons (h : IsName w) : ∃ c t, w = c :: t ∧ charKind c = .alpha := by
  obtain ⟨c, t, rfl⟩ := exists_cons_of_ne_nil h.ne_nil
  exact ⟨c, t, rfl, charKind_of_isWordChar (h.chars c mem_cons_self) (h.digit c t rfl)⟩

lemma matchersText_cons (m : Matcher) (h : ms ≠ []) :
    matchersText isPrint (m :: ms) = m.text isPrint ++ ',' :: matchersText isPrint ms := by
  obtain ⟨m', ms', rfl⟩ := exists_cons_of_ne_nil h
  rw [matchersText, Go.join, map_cons, map_cons, intercalate_cons_cons, append_assoc]
  rfl

lemma matchersText_singleton (m : Matcher) : matchersText isPrint [m] = m.text isPrint := by
  rw [matchersText, Go.join]
  exact intercalate_singleton

/-! ## Reading matchers -/

lemma lexItem_quote (v s : List Char) : lexItem (Go.quote isPrint v ++ s) = some ([.str v], s) := by
  have hliteral := Go.literal_quote isPrint v
  have hstop : literalStep (.inside '"') '"' = none := by decide
  have hscan : scanUntil literalStep (.inside '"') (Go.quoteFrom isPrint 0 v ++ '"' :: s) =
      some (Go.quoteFrom isPrint 0 v ++ ['"'], s) := scanUntil_of_body hliteral.inside hstop
  have hline : '\n' ∉ Go.quoteFrom isPrint 0 v ++ ['"'] := by
    rw [mem_append, not_or]
    exact ⟨hliteral.oneLine, by decide⟩
  have hkind : charKind '"' = .quote := by decide
  have htext : Go.quote isPrint v ++ s = '"' :: (Go.quoteFrom isPrint 0 v ++ '"' :: s) := by
    simp [Go.quote]
  rw [htext]
  simp only [lexItem, hkind, lexString, hscan, if_neg hline, dropLast_concat,
    Go.unquote_quoteFrom, Option.map_some]

lemma lexItem_label (hw : IsLabel w) (hs : HeadNot isAlnum s) :
    lexItem (w ++ s) = some ([.word w], s) := by
  obtain ⟨c, t, rfl, hc⟩ := hw.exists_cons
  have hword : isWordChar c = true := by rw [isWordChar, isAlnum, hc, Bool.true_or, Bool.true_or]
  have hkind := charKind_of_isWordChar hword (hw.digit c t rfl)
  rw [cons_append]
  simp only [lexItem, hkind, if_pos hc, ← cons_append]
  rw [takeWhile_append_of_pos hw.chars, takeWhile_eq_nil hs, append_nil,
    dropWhile_append_of_pos hw.chars, dropWhile_eq_self hs]

lemma lexItem_op (o : MatchOp) (s : List Char) :
    lexItem (o.text ++ '"' :: s) = some ([.op o], '"' :: s) := by
  cases o <;> rfl

lemma headNot_opText (o : MatchOp) (s : List Char) : HeadNot isAlnum (o.text ++ s) := by
  cases o <;> exact headNot_cons (by decide)

lemma exists_quote (v s : List Char) : ∃ t, Go.quote isPrint v ++ s = '"' :: t :=
  ⟨Go.quoteFrom isPrint 0 v ++ ['"'] ++ s, by rw [Go.quote, cons_append]; rfl⟩

/-- A text has these parts, if there is a step for each of its characters. -/
def ItemsOf (s : List Char) (items : List Item) : Prop :=
  ∀ n, s.length ≤ n → lexItems n s = some items

lemma itemsOf_nil : ItemsOf [] [] := by
  intro n _
  cases n <;> rfl

lemma ItemsOf.step {t rest : List Char} {item : Item} {items : List Item}
    (hone : lexItem t = some ([item], rest)) (hlt : rest.length < t.length)
    (h : ItemsOf rest items) : ItemsOf t (item :: items) := by
  intro n hn
  have hpos : 0 < t.length := by omega
  obtain ⟨c, t, rfl⟩ := exists_cons_of_ne_nil (ne_nil_of_length_pos hpos)
  obtain ⟨k, rfl⟩ : ∃ k, n = k + 1 := ⟨n - 1, by rw [length_cons] at hn; omega⟩
  rw [lexItems, hone]
  · simp [h k (by omega)]
  · simp

/-- The parts of a matcher. -/
def Matcher.items (m : Matcher) : List Item := [.word m.name, .op m.op, .str m.value]

lemma length_lt_append {a : List Char} (h : a ≠ []) (b : List Char) :
    b.length < (a ++ b).length := by
  rw [length_append]
  exact Nat.lt_add_of_pos_left (length_pos_iff.mpr h)

lemma itemsOf_matcher {isPrint : ℕ → Bool} {m : Matcher} {items : List Item}
    (hm : IsLabel m.name) (h : ItemsOf s items) :
    ItemsOf (m.text isPrint ++ s) (m.items ++ items) := by
  obtain ⟨t, ht⟩ := exists_quote isPrint m.value s
  have hquote : Go.quote isPrint m.value ≠ [] := by simp [Go.quote]
  have hsym : m.op.text ≠ [] := by cases m.op <;> simp [MatchOp.text]
  have hstr : ItemsOf (Go.quote isPrint m.value ++ s) (.str m.value :: items) :=
    ItemsOf.step (lexItem_quote isPrint m.value s) (length_lt_append hquote s) h
  have hop : ItemsOf (m.op.text ++ (Go.quote isPrint m.value ++ s))
      (.op m.op :: .str m.value :: items) := by
    rw [ht] at hstr ⊢
    exact ItemsOf.step (lexItem_op m.op t) (length_lt_append hsym _) hstr
  rw [Matcher.text, append_assoc, append_assoc]
  exact ItemsOf.step (lexItem_label hm (headNot_opText _ _)) (length_lt_append hm.ne_nil _) hop

lemma itemsOf_matchersText (h : ∀ m ∈ ms, IsLabel m.name) :
    ∃ items, ItemsOf (matchersText isPrint ms) items ∧ parseMatchers items = some ms := by
  induction ms with
  | nil => exact ⟨[], itemsOf_nil, rfl⟩
  | cons m ms ih =>
    have hm := h m mem_cons_self
    by_cases hms : ms = []
    · subst hms
      have hitems : ItemsOf (m.text isPrint ++ []) (m.items ++ []) :=
        itemsOf_matcher hm itemsOf_nil
      rw [append_nil, append_nil] at hitems
      rw [matchersText_singleton]
      exact ⟨m.items, hitems, rfl⟩
    · obtain ⟨items, hitems, hparse⟩ := ih fun m' hm' => h m' (mem_cons_of_mem _ hm')
      have hcomma : ItemsOf (',' :: matchersText isPrint ms) (.comma :: items) :=
        ItemsOf.step rfl (Nat.lt_succ_self _) hitems
      rw [matchersText_cons isPrint m hms]
      refine ⟨_, itemsOf_matcher hm hcomma, ?_⟩
      rw [Matcher.items, cons_append, cons_append, cons_append, nil_append, parseMatchers, hparse]
      rfl

/-! ## Reading braces -/

/-- What ends braces, or hides something between them, outside of string literals. -/
def isBraceStop (c : Char) : Bool := isStray c || c == '\x7d'

lemma runThrough_braceStep {st st' : Quote}
    (h : runThrough (guardStep isBraceStop) st s = some st') :
    runThrough braceStep (.code st) s = some (.code st') := by
  induction s generalizing st with
  | nil => rw [← Option.some.inj h, runThrough]
  | cons c s ih =>
    obtain ⟨mid, hstep, hrun⟩ := Option.bind_eq_some_iff.mp h
    obtain ⟨hgood, rfl⟩ := guardStep_eq_some hstep
    have hbrace : braceStep (.code st) c = some (.code (st.next c)) := by
      rw [braceStep]
      by_cases hst : st = .outside
      · have hc := hgood hst
        have hne : c ≠ '\x7d' ∧ c ≠ backquote ∧ c ≠ '#' := by
          simp only [isBraceStop, isStray, Bool.or_eq_false_iff, beq_eq_false_iff_ne] at hc
          exact ⟨hc.2, hc.1.2, hc.1.1⟩
        rw [if_pos hst, if_neg hne.1, if_neg hne.2.1, if_neg hne.2.2]
      · rw [if_neg hst]
    rw [runThrough, hbrace, Option.bind_some]
    exact ih hrun

lemma scanUntil_braceStep {body : List Char} (h : Closed isBraceStop body) (s : List Char) :
    scanUntil braceStep (.code .outside) (body ++ '\x7d' :: s) = some (body ++ ['\x7d'], s) :=
  scanUntil_of_body (runThrough_braceStep h) (by decide)

section
variable {bad : Char → Bool}

lemma eq_false_of_all (h : w.all (fun c => !bad c) = true) :
    ∀ c ∈ w, bad c = false := fun c hc => by
  simpa using all_eq_true.mp h c hc

lemma closed_quote (hquote : bad '"' = false) (v : List Char) :
    Closed bad (Go.quote isPrint v) := by
  have hinside : runThrough (guardStep bad) (.inside '"') (Go.quoteFrom isPrint 0 v) =
      some (.inside '"') :=
    runThrough_guard_of_literal (Go.literal_quote isPrint v).inside (by simp)
  have hopen : guardStep bad .outside '"' = some (.inside '"') :=
    guardStep_of_good fun _ => hquote
  have hclose : guardStep bad (.inside '"') '"' = some .outside :=
    guardStep_of_good fun h => nomatch h
  rw [Closed, Go.quote, cons_append, runThrough, hopen, Option.bind_some,
    runThrough_append, hinside, Option.bind_some, runThrough, hclose]
  rfl

lemma closed_matcherText {m : Matcher} (hm : IsLabel m.name)
    (halnum : ∀ c, isAlnum c = true → bad c = false)
    (hop : ∀ c ∈ ['=', '!', '~', '"'], bad c = false) : Closed bad (m.text isPrint) := by
  have hname : Closed bad m.name :=
    closed_of_plain (fun c hc => isQuote_of_isAlnum (hm.chars c hc)) fun c hc =>
      halnum c (hm.chars c hc)
  have hchars : m.op.text ⊆ ['=', '!', '~'] := by cases m.op <;> decide
  have hquotes : ∀ c ∈ m.op.text, isQuote c = false :=
    eq_false_of_all (by cases m.op <;> decide)
  have hsym : Closed bad m.op.text :=
    closed_of_plain hquotes fun c hc => hop c (mem_append_left ['"'] (hchars hc))
  exact hname.append (hsym.append (closed_quote isPrint (hop '"' (by decide)) m.value))

lemma closed_matchersText (h : ∀ m ∈ ms, IsLabel m.name)
    (halnum : ∀ c, isAlnum c = true → bad c = false)
    (hop : ∀ c ∈ ['=', '!', '~', '"'], bad c = false) (hcomma : bad ',' = false) :
    Closed bad (matchersText isPrint ms) := by
  induction ms with
  | nil => exact closed_nil
  | cons m ms ih =>
    have hm := closed_matcherText isPrint (h m mem_cons_self) halnum hop
    by_cases hms : ms = []
    · subst hms
      rw [matchersText_singleton]
      exact hm
    · have hsep : Closed bad [','] :=
        closed_of_plain (forall_mem_singleton.mpr rfl) (forall_mem_singleton.mpr hcomma)
      rw [matchersText_cons isPrint m hms]
      exact hm.append (hsep.append (ih fun m' hm' => h m' (mem_cons_of_mem _ hm')))

end

lemma isBraceStop_of_isAlnum {c : Char} (h : isAlnum c = true) : isBraceStop c = false := by
  by_contra hstop
  rw [Bool.not_eq_false, isBraceStop, isStray, Bool.or_eq_true, Bool.or_eq_true, beq_iff_eq,
    beq_iff_eq, beq_iff_eq] at hstop
  rcases hstop with (rfl | rfl) | rfl <;> exact absurd h (by decide)

lemma lexOne_bracesText (h : ∀ m ∈ ms, IsLabel m.name) (s : List Char) :
    lexOne (bracesText isPrint ms ++ s) = some ([.braces ms], s) := by
  have hclosed : Closed isBraceStop (matchersText isPrint ms) :=
    closed_matchersText isPrint h (fun c => isBraceStop_of_isAlnum)
      (eq_false_of_all (by decide)) (by decide)
  obtain ⟨items, hitems, hparse⟩ := itemsOf_matchersText isPrint h
  have hlex : lexBraces (matchersText isPrint ms ++ '\x7d' :: s) = some (ms, s) := by
    rw [lexBraces, scanUntil_braceStep hclosed]
    simp only [dropLast_concat]
    rw [hitems _ (by rw [length_append]; omega), Option.bind_some, hparse]
    rfl
  have hkind : charKind '\x7b' = .lbrace := by decide
  rw [bracesText, cons_append, append_assoc, singleton_append]
  simp [lexOne, hkind, hlex]

lemma lexOne_name (hw : IsName w) (hs : HeadNot isWordChar s) :
    lexOne (w ++ s) = some ([.word w], s) := by
  obtain ⟨c, t, rfl, hkind⟩ := hw.exists_cons
  rw [cons_append]
  simp only [lexOne, hkind, ← cons_append]
  rw [takeWhile_append_of_pos hw.chars, takeWhile_eq_nil hs, append_nil,
    dropWhile_append_of_pos hw.chars, dropWhile_eq_self hs]

end KubeWaf.Lib.Promql
