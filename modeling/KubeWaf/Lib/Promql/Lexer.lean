import KubeWaf.Lib.GoStrings
import KubeWaf.Lib.GoQuote

/-!
# The lexer of PromQL

The tokens of a query, as Prometheus reads them: strings in double, single and back quotes, line
comments, numbers and durations, names, operators. The text between braces is one token that
carries its matchers, the text between brackets is one token without content, since no selector
can stand there. Where Prometheus rejects a token only later (a literal such as `1e`, a misspelt
duration) the lexer here accepts it, so nothing that Prometheus parses is missed.
-/

namespace KubeWaf.Lib.Promql

open List

variable {ts : List Token}

/-! ## Tokens -/

/-- How a matcher compares its label. -/
inductive MatchOp where
  | eq
  | ne
  | re
  | nre
deriving DecidableEq

/-- A label matcher; the value is the text for which its literal stands. -/
structure Matcher where
  name : List Char
  op : MatchOp
  value : List Char
deriving DecidableEq

inductive Token where
  | num
  | str
  | word (w : List Char)
  | lparen
  | rparen
  | comma
  | op (sym : List Char)
  | atSign
  | range
  | braces (ms : List Matcher)
deriving DecidableEq

/-! ## Characters -/

def isBlank (c : Char) : Bool := c == ' ' || c == '\t' || c == '\n' || c == '\r'

def isDigit (c : Char) : Bool := '0' ≤ c && c ≤ '9'

def isAlpha (c : Char) : Bool := c == '_' || ('a' ≤ c && c ≤ 'z') || ('A' ≤ c && c ≤ 'Z')

def isAlnum (c : Char) : Bool := isAlpha c || isDigit c

/-- The characters of a name; recording rules have colons in theirs. -/
def isWordChar (c : Char) : Bool := isAlnum c || c == ':'

/-- The back quote. -/
def backquote : Char := Char.ofNat 96

/-- What a character starts. -/
inductive CharKind where
  | blank
  | comment
  | quote
  | rawQuote
  | digit
  | point
  | alpha
  | lbrace
  | lbracket
  | lparen
  | rparen
  | comma
  | atSign
  | operator
  | other
deriving DecidableEq

def charKind (c : Char) : CharKind :=
  if isBlank c then .blank
  else if isDigit c then .digit
  else if isAlpha c || c == ':' then .alpha
  else if isQuote c then .quote
  else if c = backquote then .rawQuote
  else if c = '#' then .comment
  else if c = '.' then .point
  else if c = '\x7b' then .lbrace
  else if c = '[' then .lbracket
  else if c = '(' then .lparen
  else if c = ')' then .rparen
  else if c = ',' then .comma
  else if c = '@' then .atSign
  else if c ∈ ['+', '-', '*', '/', '%', '^', '=', '!', '<', '>'] then .operator
  else .other

/-! ## Numbers -/

/-- What is left behind a fraction. -/
def fractionEnd : List Char → List Char
  | [] => []
  | c :: s => if c = '.' then s.dropWhile isDigit else c :: s

/-- What is left behind a sign. -/
def signEnd : List Char → List Char
  | [] => []
  | c :: s => if c = '+' ∨ c = '-' then s else c :: s

def startsWithDigit : List Char → Bool
  | [] => false
  | c :: _ => isDigit c

/-- What is left behind an exponent, which has at least one digit. -/
def exponentEnd : List Char → List Char
  | [] => []
  | c :: s =>
    if (c = 'e' ∨ c = 'E') ∧ startsWithDigit (signEnd s) then (signEnd s).dropWhile isDigit
    else c :: s

/-- What is left behind a decimal number. -/
def decimalEnd (s : List Char) : List Char := exponentEnd (fractionEnd (s.dropWhile isDigit))

def isDurationChar (c : Char) : Bool := isDigit c || c ∈ ['s', 'm', 'h', 'd', 'w', 'y']

/-- The characters of hexadecimal numbers and of decimal ones with underscores. -/
def isHexChar (c : Char) : Bool :=
  isDigit c || ('a' ≤ c && c ≤ 'f') || ('A' ≤ c && c ≤ 'F') || c ∈ ['x', 'X', '_']

/-- The letters behind the decimal start of a literal make it a duration or a number in another
notation. -/
def numberTail (tail : List Char) : Bool := tail.all isDurationChar || tail.all isHexChar

/-- What is left behind the fraction of a number with underscores. -/
def pointTail : List Char → List Char
  | [] => []
  | c :: s =>
    if c = '.' then s.dropWhile fun d => isDigit d || d ∈ ['_', 'e', 'E'] else c :: s

/-- What is left behind a number or a duration. -/
def lexNumber (s : List Char) : Option (List Char) :=
  let rest := decimalEnd s
  let tail := rest.takeWhile isAlnum
  if tail = [] then
    if rest.head? = some '.' then none else some rest
  else if numberTail tail then some (pointTail (rest.dropWhile isAlnum))
  else none

/-! ## Strings -/

/-- A string literal behind its opening quote: what it stands for, and what is left. -/
def lexString (quote : Char) (s : List Char) : Option (List Char × List Char) :=
  match scanUntil literalStep (.inside quote) s with
  | none => none
  | some (text, rest) =>
    if '\n' ∈ text then none
    else (Go.unquote quote text.dropLast).map fun value => (value, rest)

/-- A raw literal ends at the next back quote. -/
def rawStep (_ : Unit) (c : Char) : Option Unit := if c = backquote then none else some ()

def lexRawString (s : List Char) : Option (List Char × List Char) :=
  (scanUntil rawStep () s).map fun (text, rest) => (text.dropLast, rest)

/-- A comment reaches to the end of its line. -/
def lexComment (s : List Char) : List Char := s.dropWhile (· != '\n')

/-! ## Matchers -/

/-- The parts of a list of matchers. -/
inductive Item where
  | word (w : List Char)
  | str (value : List Char)
  | op (o : MatchOp)
  | comma
deriving DecidableEq

def lexMatchOp (c : Char) (s : List Char) : Option (List Item × List Char) :=
  match s with
  | [] => if c = '=' then some ([.op .eq], []) else none
  | d :: s =>
    if c = '=' then
      if d = '~' then some ([.op .re], s) else some ([.op .eq], d :: s)
    else if c = '!' then
      if d = '~' then some ([.op .nre], s)
      else if d = '=' then some ([.op .ne], s)
      else none
    else none

/-- One part of a list of matchers, or blanks or a comment, and what is left. -/
def lexItem : List Char → Option (List Item × List Char)
  | [] => none
  | c :: s =>
    match charKind c with
    | .blank => some ([], s)
    | .comment => some ([], lexComment s)
    | .quote => (lexString c s).map fun (value, rest) => ([.str value], rest)
    | .rawQuote => (lexRawString s).map fun (value, rest) => ([.str value], rest)
    | .alpha =>
      if isAlpha c then
        some ([.word ((c :: s).takeWhile isAlnum)], (c :: s).dropWhile isAlnum)
      else none
    | .comma => some ([.comma], s)
    | .operator => lexMatchOp c s
    | _ => none

def lexItems : ℕ → List Char → Option (List Item)
  | _, [] => some []
  | 0, _ => none
  | n + 1, s =>
    match lexItem s with
    | none => none
    | some (items, rest) => (lexItems n rest).map (items ++ ·)

/-- The matchers that the parts between two braces write. A string alone is the name of the
metric. -/
def parseMatchers : List Item → Option (List Matcher)
  | [] => some []
  | [.word k, .op o, .str v] => some [⟨k, o, v⟩]
  | [.str k, .op o, .str v] => some [⟨k, o, v⟩]
  | [.str v] => some [⟨"__name__".toList, .eq, v⟩]
  | .word k :: .op o :: .str v :: .comma :: rest => (parseMatchers rest).map (⟨k, o, v⟩ :: ·)
  | .str k :: .op o :: .str v :: .comma :: rest => (parseMatchers rest).map (⟨k, o, v⟩ :: ·)
  | .str v :: .comma :: rest => (parseMatchers rest).map (⟨"__name__".toList, .eq, v⟩ :: ·)
  | _ => none

/-- Where a reader is between two braces. -/
inductive BraceState where
  | code (st : Quote)
  | raw
  | comment
deriving DecidableEq

/-- Braces end at the first closing one outside of strings and comments. -/
def braceStep : BraceState → Char → Option BraceState
  | .code st, c =>
    if st = .outside then
      if c = '\x7d' then none
      else if c = backquote then some .raw
      else if c = '#' then some .comment
      else some (.code (st.next c))
    else some (.code (st.next c))
  | .raw, c => some (if c = backquote then .code .outside else .raw)
  | .comment, c => some (if c = '\n' then .code .outside else .comment)

/-- The matchers behind an opening brace, and what is left. -/
def lexBraces (s : List Char) : Option (List Matcher × List Char) :=
  match scanUntil braceStep (.code .outside) s with
  | none => none
  | some (text, rest) =>
    ((lexItems text.length text.dropLast).bind parseMatchers).map fun ms => (ms, rest)

/-! ## Ranges -/

/-- Where a reader is between two brackets. -/
inductive RangeState where
  | code
  | comment
  | stray
deriving DecidableEq

/-- Brackets end at the first closing one outside of comments; strings, parentheses, braces and
other brackets cannot stand between them. -/
def rangeStep : RangeState → Char → Option RangeState
  | .code, c =>
    if c = ']' then none
    else if c = '#' then some .comment
    else if isQuote c || c ∈ [backquote, '[', '(', ')', '\x7b', '\x7d'] then some .stray
    else some .code
  | .comment, c => some (if c = '\n' then .code else .comment)
  | .stray, _ => some .stray

/-! ## The lexer -/

def lexOperator (c : Char) (s : List Char) : Option (List Token × List Char) :=
  match s with
  | [] => if c ∈ ['=', '!'] then none else some ([.op [c]], [])
  | d :: s =>
    if c ∈ ['=', '!', '<', '>'] then
      if d = '=' then some ([.op [c, d]], s)
      else if c ∈ ['=', '!'] then none
      else some ([.op [c]], d :: s)
    else some ([.op [c]], d :: s)

/-- One token, or blanks or a comment, and what is left. -/
def lexOne : List Char → Option (List Token × List Char)
  | [] => none
  | c :: s =>
    match charKind c with
    | .blank => some ([], s)
    | .comment => some ([], lexComment s)
    | .quote => (lexString c s).map fun (_, rest) => ([.str], rest)
    | .rawQuote => (lexRawString s).map fun (_, rest) => ([.str], rest)
    | .digit => (lexNumber (c :: s)).map fun rest => ([.num], rest)
    | .point =>
      if startsWithDigit s then (lexNumber (c :: s)).map fun rest => ([.num], rest) else none
    | .alpha =>
      some ([.word ((c :: s).takeWhile isWordChar)], (c :: s).dropWhile isWordChar)
    | .lbrace => (lexBraces s).map fun (ms, rest) => ([.braces ms], rest)
    | .lbracket => (scanUntil rangeStep .code s).map fun (_, rest) => ([.range], rest)
    | .lparen => some ([.lparen], s)
    | .rparen => some ([.rparen], s)
    | .comma => some ([.comma], s)
    | .atSign => some ([.atSign], s)
    | .operator => lexOperator c s
    | .other => none

/-- The tokens of a text. -/
inductive Lexes : List Char → List Token → Prop
  | nil : Lexes [] []
  | step {s rest : List Char} {out ts : List Token} :
      lexOne s = some (out, rest) → Lexes rest ts → Lexes s (out ++ ts)

/-- The tokens of a text with at most `n` characters. -/
def lexFuel : ℕ → List Char → Option (List Token)
  | _, [] => some []
  | 0, _ => none
  | n + 1, s =>
    match lexOne s with
    | none => none
    | some (out, rest) => (lexFuel n rest).map (out ++ ·)

def lex (s : List Char) : Option (List Token) := lexFuel s.length s

-- the equations of the lexer, stated once for the lemmas below
attribute [local simp] lexOne lexFuel

/-! ## Every token takes something off the text -/

section
variable {c : Char} {s rest : List Char}

lemma forall_ascii {P : Char → Prop} (hall : ∀ n : Fin 128, P (Char.ofNat n))
    (h : c.toNat < 128) : P c := by
  have hc := hall ⟨c.toNat, h⟩
  rwa [Char.ofNat_toNat] at hc

lemma isDigit_iff : isDigit c = true ↔ 48 ≤ c.toNat ∧ c.toNat ≤ 57 := by
  simp only [isDigit, Bool.and_eq_true, decide_eq_true_eq, Char.le_def, UInt32.le_iff_toNat_le]
  rfl

lemma isAlpha_iff : isAlpha c = true ↔
    c.toNat = 95 ∨ (97 ≤ c.toNat ∧ c.toNat ≤ 122) ∨ (65 ≤ c.toNat ∧ c.toNat ≤ 90) := by
  simp only [isAlpha, Bool.or_eq_true, Bool.and_eq_true, decide_eq_true_eq, Char.le_def,
    UInt32.le_iff_toNat_le, beq_iff_eq, Char.ext_iff, ← UInt32.toNat_inj, or_assoc]
  rfl

lemma charKind_eq_other (h : 128 ≤ c.toNat) : charKind c = .other := by
  have hne : ∀ d : Char, d.toNat < 128 → c ≠ d := by
    intro d hd heq
    rw [heq] at h
    omega
  have hdigit : ¬isDigit c = true := by
    rw [isDigit_iff]
    omega
  have halpha : ¬isAlpha c = true := by
    rw [isAlpha_iff]
    omega
  have hblank : isBlank c = false := by
    simp [isBlank, hne]
  have hquote : isQuote c = false := by
    simp [isQuote, hne]
  rw [charKind, hblank, hquote, if_neg (by simp), if_neg hdigit, if_neg (by simp [halpha, hne]),
    if_neg (by simp)]
  iterate 9 rw [if_neg (hne _ (by decide))]
  rw [if_neg (by simp [hne])]

lemma lt_of_charKind (h : charKind c ≠ .other) : c.toNat < 128 := by
  by_contra hlarge
  exact h (charKind_eq_other (by omega))

lemma of_charKind {k : CharKind} {P : Char → Bool} (hk : k ≠ .other)
    (hall : ∀ n : Fin 128, charKind (Char.ofNat n) = k → P (Char.ofNat n) = true)
    (h : charKind c = k) : P c = true :=
  forall_ascii (P := fun c => charKind c = k → P c = true) hall (lt_of_charKind (h ▸ hk)) h

lemma isWordChar_of_charKind (h : charKind c = .alpha) : isWordChar c = true :=
  of_charKind (by decide) (by decide) h

lemma isDigit_of_charKind (h : charKind c = .digit) : isDigit c = true :=
  of_charKind (by decide) (by decide) h

lemma isBlank_of_charKind (h : charKind c = .blank) : isBlank c = true :=
  of_charKind (by decide) (by decide) h

lemma eq_of_charKind {k : CharKind} {d : Char}
    (hk : k ≠ .other ∧ ∀ n : Fin 128, charKind (Char.ofNat n) = k → (Char.ofNat n == d) = true)
    (h : charKind c = k) : c = d :=
  beq_iff_eq.mp (of_charKind (P := (· == d)) hk.1 hk.2 h)

/-- What is left of a text when characters that are no quotes are taken off its start. -/
def Drops (s rest : List Char) : Prop := ∃ x, s = x ++ rest ∧ ∀ c ∈ x, isQuote c = false

lemma Drops.refl (s : List Char) : Drops s s := ⟨[], rfl, by simp⟩

lemma Drops.trans {mid : List Char} (h : Drops s mid) (h' : Drops mid rest) : Drops s rest := by
  obtain ⟨x, rfl, hx⟩ := h
  obtain ⟨y, rfl, hy⟩ := h'
  refine ⟨x ++ y, by rw [append_assoc], ?_⟩
  intro c hc
  rcases mem_append.mp hc with hc | hc
  · exact hx c hc
  · exact hy c hc

lemma Drops.cons (hc : isQuote c = false) : Drops (c :: s) s :=
  ⟨[c], rfl, by simpa using hc⟩

lemma Drops.suffix (h : Drops s rest) : rest <:+ s := by
  obtain ⟨x, rfl, _⟩ := h
  exact suffix_append _ _

lemma Drops.dropWhile {p : Char → Bool} (hp : ∀ c, p c = true → isQuote c = false)
    (s : List Char) : Drops s (s.dropWhile p) := by
  refine ⟨s.takeWhile p, (takeWhile_append_dropWhile).symm, ?_⟩
  intro c hc
  exact hp c (mem_takeWhile_imp hc)

lemma isQuote_iff : isQuote c = true ↔ c.toNat = 34 ∨ c.toNat = 39 := by
  simp only [isQuote, Bool.or_eq_true, beq_iff_eq, Char.ext_iff, ← UInt32.toNat_inj]
  rfl

lemma isQuote_of_isDigit (h : isDigit c = true) : isQuote c = false := by
  rw [isDigit_iff] at h
  rw [← Bool.not_eq_true, isQuote_iff]
  omega

lemma isQuote_of_isAlnum (h : isAlnum c = true) : isQuote c = false := by
  rw [isAlnum, Bool.or_eq_true] at h
  rcases h with h | h
  · rw [isAlpha_iff] at h
    rw [← Bool.not_eq_true, isQuote_iff]
    omega
  · exact isQuote_of_isDigit h

lemma isQuote_of_isWordChar (h : isWordChar c = true) : isQuote c = false := by
  rw [isWordChar, Bool.or_eq_true, beq_iff_eq] at h
  rcases h with h | h
  · exact isQuote_of_isAlnum h
  · rw [h]
    decide

lemma fractionEnd_drops (s : List Char) : Drops s (fractionEnd s) := by
  unfold fractionEnd
  split
  · exact .refl _
  · rename_i c s
    by_cases hc : c = '.'
    · rw [if_pos hc, hc]
      exact (Drops.cons (by decide)).trans (.dropWhile (fun _ => isQuote_of_isDigit) s)
    · rw [if_neg hc]
      exact .refl _

lemma signEnd_drops (s : List Char) : Drops s (signEnd s) := by
  unfold signEnd
  split
  · exact .refl _
  · rename_i c s
    by_cases hc : c = '+' ∨ c = '-'
    · rw [if_pos hc]
      exact Drops.cons (by rcases hc with rfl | rfl <;> decide)
    · rw [if_neg hc]
      exact .refl _

lemma exponentEnd_drops (s : List Char) : Drops s (exponentEnd s) := by
  unfold exponentEnd
  split
  · exact .refl _
  · rename_i c s
    by_cases hc : (c = 'e' ∨ c = 'E') ∧ startsWithDigit (signEnd s)
    · rw [if_pos hc]
      have he : isQuote c = false := by rcases hc.1 with rfl | rfl <;> decide
      exact ((Drops.cons he).trans (signEnd_drops s)).trans
        (.dropWhile (fun _ => isQuote_of_isDigit) _)
    · rw [if_neg hc]
      exact .refl _

lemma pointTail_drops (s : List Char) : Drops s (pointTail s) := by
  unfold pointTail
  split
  · exact .refl _
  · rename_i c s
    by_cases hc : c = '.'
    · rw [if_pos hc, hc]
      refine (Drops.cons (by decide)).trans (.dropWhile ?_ s)
      intro d hd
      rw [Bool.or_eq_true, decide_eq_true_eq] at hd
      rcases hd with hd | hd
      · exact isQuote_of_isDigit hd
      · simp only [mem_cons, not_mem_nil, or_false] at hd
        rcases hd with rfl | rfl | rfl <;> decide
    · rw [if_neg hc]
      exact .refl _

lemma decimalEnd_drops (s : List Char) : Drops s (decimalEnd s) :=
  ((Drops.dropWhile (fun _ => isQuote_of_isDigit) s).trans (fractionEnd_drops _)).trans
    (exponentEnd_drops _)

lemma decimalEnd_digit (h : isDigit c = true) : decimalEnd (c :: s) = decimalEnd s := by
  rw [decimalEnd, dropWhile_cons_of_pos h, decimalEnd]

lemma decimalEnd_point_drops : Drops s (decimalEnd ('.' :: s)) := by
  rw [decimalEnd, dropWhile_cons_of_neg (by decide), fractionEnd, if_pos rfl]
  exact (Drops.dropWhile (fun _ => isQuote_of_isDigit) s).trans (exponentEnd_drops _)

lemma lexNumber_drops (h : lexNumber s = some rest) : Drops (decimalEnd s) rest := by
  unfold lexNumber at h
  simp only at h
  split_ifs at h with h1 h2 h3
  · cases h
    exact .refl _
  · cases h
    exact (Drops.dropWhile (fun _ => isQuote_of_isAlnum) _).trans (pointTail_drops _)

lemma lexString_suffix {quote : Char} {value : List Char}
    (h : lexString quote s = some (value, rest)) : rest <:+ s := by
  unfold lexString at h
  split at h
  · cases h
  · rename_i text rest' hscan
    split_ifs at h
    obtain ⟨_, _, heq⟩ := Option.map_eq_some_iff.mp h
    rw [← (Prod.mk.inj heq).2]
    exact scanUntil_suffix hscan

lemma lexRawString_suffix {value : List Char}
    (h : lexRawString s = some (value, rest)) : rest <:+ s := by
  obtain ⟨⟨text, rest'⟩, hscan, heq⟩ := Option.map_eq_some_iff.mp h
  rw [← (Prod.mk.inj heq).2]
  exact scanUntil_suffix hscan

lemma lexBraces_suffix {ms : List Matcher} (h : lexBraces s = some (ms, rest)) :
    rest <:+ s := by
  unfold lexBraces at h
  split at h
  · cases h
  · rename_i text rest' hscan
    obtain ⟨_, _, heq⟩ := Option.map_eq_some_iff.mp h
    rw [← (Prod.mk.inj heq).2]
    exact scanUntil_suffix hscan

lemma lexOperator_suffix {out : List Token} (h : lexOperator c s = some (out, rest)) :
    rest <:+ s := by
  unfold lexOperator at h
  split at h
  · split_ifs at h
    rw [← (Prod.mk.inj (Option.some.inj h)).2]
  · split_ifs at h
    · rw [← (Prod.mk.inj (Option.some.inj h)).2]
      exact suffix_cons _ _
    · rw [← (Prod.mk.inj (Option.some.inj h)).2]
    · rw [← (Prod.mk.inj (Option.some.inj h)).2]

lemma lexOne_suffix {out : List Token} (h : lexOne (c :: s) = some (out, rest)) :
    rest <:+ s := by
  cases hkind : charKind c <;> simp only [lexOne, hkind] at h
  case blank | lparen | rparen | comma | atSign =>
    rw [← (Prod.mk.inj (Option.some.inj h)).2]
  case comment =>
    rw [← (Prod.mk.inj (Option.some.inj h)).2]
    exact dropWhile_suffix _
  case quote =>
    obtain ⟨⟨_, _⟩, hlex, heq⟩ := Option.map_eq_some_iff.mp h
    rw [← (Prod.mk.inj heq).2]
    exact lexString_suffix hlex
  case rawQuote =>
    obtain ⟨⟨_, _⟩, hlex, heq⟩ := Option.map_eq_some_iff.mp h
    rw [← (Prod.mk.inj heq).2]
    exact lexRawString_suffix hlex
  case digit =>
    obtain ⟨_, hlex, heq⟩ := Option.map_eq_some_iff.mp h
    rw [← (Prod.mk.inj heq).2]
    have hdrops := lexNumber_drops hlex
    rw [decimalEnd_digit (isDigit_of_charKind hkind)] at hdrops
    exact ((decimalEnd_drops s).trans hdrops).suffix
  case point =>
    split_ifs at h
    obtain ⟨_, hlex, heq⟩ := Option.map_eq_some_iff.mp h
    rw [eq_of_charKind (d := '.') (by decide) hkind] at hlex
    rw [← (Prod.mk.inj heq).2]
    exact (decimalEnd_point_drops.trans (lexNumber_drops hlex)).suffix
  case alpha =>
    rw [← (Prod.mk.inj (Option.some.inj h)).2, dropWhile_cons_of_pos (isWordChar_of_charKind hkind)]
    exact dropWhile_suffix _
  case lbrace =>
    obtain ⟨⟨_, _⟩, hlex, heq⟩ := Option.map_eq_some_iff.mp h
    rw [← (Prod.mk.inj heq).2]
    exact lexBraces_suffix hlex
  case lbracket =>
    obtain ⟨⟨_, _⟩, hscan, heq⟩ := Option.map_eq_some_iff.mp h
    rw [scanUntil_append hscan, ← (Prod.mk.inj heq).2]
    exact suffix_append _ _
  case operator => exact lexOperator_suffix h
  case other => cases h

end

/-! ## The two forms of the lexer agree -/

lemma lexes_cons {c : Char} {s : List Char} (h : Lexes (c :: s) ts) :
    ∃ out rest ts', lexOne (c :: s) = some (out, rest) ∧ Lexes rest ts' ∧ ts = out ++ ts' := by
  cases h with
  | step hone hrest => exact ⟨_, _, _, hone, hrest, rfl⟩

lemma lexes_nil (h : Lexes [] ts) : ts = [] := by
  cases h with
  | nil => rfl
  | step hone _ => exact absurd hone (by simp)

lemma lexes_of_lexFuel {n : ℕ} {s : List Char} (h : lexFuel n s = some ts) : Lexes s ts := by
  induction n generalizing s ts with
  | zero =>
    cases s with
    | nil =>
      cases h
      exact .nil
    | cons c s => exact absurd h (by simp)
  | succ n ih =>
    cases s with
    | nil =>
      cases h
      exact .nil
    | cons c s =>
      rw [lexFuel] at h
      · cases hone : lexOne (c :: s) with
        | none =>
          rw [hone] at h
          cases h
        | some r =>
          rw [hone] at h
          simp only [Option.map_eq_some_iff] at h
          obtain ⟨ts', hrest, rfl⟩ := h
          exact .step hone (ih hrest)
      · simp

lemma lexFuel_of_lexes {n : ℕ} {s : List Char} (h : Lexes s ts) (hn : s.length ≤ n) :
    lexFuel n s = some ts := by
  induction n generalizing s ts with
  | zero =>
    have hs : s = [] := length_eq_zero_iff.mp (by omega)
    subst hs
    rw [lexes_nil h]
    rfl
  | succ n ih =>
    cases s with
    | nil =>
      rw [lexes_nil h]
      rfl
    | cons c s =>
      obtain ⟨out, rest, ts', hone, hrest, rfl⟩ := lexes_cons h
      have hlen : rest.length ≤ s.length := (lexOne_suffix hone).length_le
      rw [length_cons] at hn
      rw [lexFuel]
      · rw [hone]
        simp only
        rw [ih hrest (by omega)]
        rfl
      · simp

lemma lex_eq_some_iff {s : List Char} : lex s = some ts ↔ Lexes s ts :=
  ⟨lexes_of_lexFuel, fun h => lexFuel_of_lexes h (Nat.le_refl _)⟩

end KubeWaf.Lib.Promql
