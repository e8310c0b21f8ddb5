import KubeWaf.Lib.Promql.Printing

/-!
# Series and the selectors over them

Which series a vector selector selects, and the tokens of a union of selectors. The regular
expressions of matchers are those of Prometheus, given as a parameter.
-/

namespace KubeWaf.Lib.Promql

/-- The labels of a series: the value of each name, empty where the series does not have it. The
metric is the label `__name__`. -/
abbrev Series := List Char → List Char

/-- The series passes the matcher. -/
def Matcher.Accepts (regex : List Char → List Char → Bool) (m : Matcher) (s : Series) : Prop :=
  match m.op with
  | .eq => s m.name = m.value
  | .ne => s m.name ≠ m.value
  | .re => regex m.value (s m.name) = true
  | .nre => regex m.value (s m.name) = false

/-- A vector selector; the metric is empty where the selector names none. -/
structure Selector where
  metric : List Char
  matchers : List Matcher
deriving DecidableEq

/-- The names of a selector can be written without quotes. -/
structure Selector.WellFormed (sel : Selector) : Prop where
  metric : sel.metric = [] ∨ IsName sel.metric
  labels : ∀ m ∈ sel.matchers, IsLabel m.name

def Selector.Selects (regex : List Char → List Char → Bool) (sel : Selector) (s : Series) : Prop :=
  (sel.metric ≠ [] → s "__name__".toList = sel.metric) ∧
    ∀ m ∈ sel.matchers, m.Accepts regex s

/-- The text of a selector; a metric without matchers stands without braces. -/
def Selector.text (isPrint : ℕ → Bool) (sel : Selector) : List Char :=
  if sel.metric ≠ [] ∧ sel.matchers = [] then sel.metric
  else sel.metric ++ bracesText isPrint sel.matchers

/-! ## Unions -/

/-- The tokens of a selector with braces. -/
def Selector.tokens (sel : Selector) : List Token :=
  if sel.metric = [] then [.braces sel.matchers] else [.word sel.metric, .braces sel.matchers]

/-- The tokens of selectors with `or` between them. -/
def orTokens : List Selector → List Token
  | [] => []
  | [sel] => sel.tokens
  | sel :: sels => sel.tokens ++ .word "or".toList :: orTokens sels

/-- The tokens of a union: one selector, or several in parentheses. -/
def unionTokens : List Selector → List Token
  | [sel] => sel.tokens
  | sels => .lparen :: (orTokens sels ++ [.rparen])

/-- The selectors among the tokens of a union, where an operand is due or not. -/
def selectorsIn : Bool → List Token → List Selector
  | true, .word w :: .braces ms :: ts => ⟨w, ms⟩ :: selectorsIn false ts
  | _, .braces ms :: ts => ⟨[], ms⟩ :: selectorsIn false ts
  | _, .rparen :: ts => selectorsIn false ts
  | _, _ :: ts => selectorsIn true ts
  | _, [] => []

lemma selectorsIn_tokens (sel : Selector) (ts : List Token) :
    selectorsIn true (sel.tokens ++ ts) = sel :: selectorsIn false ts := by
  rw [Selector.tokens]
  split_ifs with hmetric
  · show ⟨[], sel.matchers⟩ :: selectorsIn false ts = _
    rw [← hmetric]
  · rfl

lemma selectorsIn_orTokens (sels : List Selector) (ts : List Token) :
    selectorsIn true (orTokens sels ++ .rparen :: ts) = sels ++ selectorsIn false ts := by
  induction sels with
  | nil => rfl
  | cons sel sels ih =>
    cases sels with
    | nil => exact selectorsIn_tokens sel _
    | cons sel' sels' =>
      rw [orTokens, List.append_assoc, selectorsIn_tokens, List.cons_append, List.cons_append, ← ih]
      · rfl
      · simp

lemma selectorsIn_unionTokens (sels : List Selector) :
    selectorsIn true (unionTokens sels) = sels := by
  rw [unionTokens.eq_def]
  split
  · rename_i sel
    have h := selectorsIn_tokens sel []
    rw [List.append_nil] at h
    exact h
  · have h := selectorsIn_orTokens sels []
    exact h.trans (List.append_nil sels)

/-! ## Reading unions -/

variable {isPrint : ℕ → Bool} {sel : Selector} {s : List Char} {ts : List Token}

lemma lexes_token {t : Token} {rest : List Char} (hone : lexOne s = some ([t], rest))
    (hrest : Lexes rest ts) : Lexes s (t :: ts) := .step hone hrest

lemma lexes_selector (h : sel.WellFormed) (hs : Lexes s ts) :
    Lexes (sel.metric ++ (bracesText isPrint sel.matchers ++ s)) (sel.tokens ++ ts) := by
  have hbraces : Lexes (bracesText isPrint sel.matchers ++ s) (.braces sel.matchers :: ts) :=
    lexes_token (lexOne_bracesText isPrint h.labels s) hs
  rw [Selector.tokens]
  rcases h.metric with hmetric | hmetric
  · rw [if_pos hmetric, hmetric]
    exact hbraces
  · have hhead : HeadNot isWordChar (bracesText isPrint sel.matchers ++ s) :=
      headNot_cons (by decide)
    rw [if_neg hmetric.ne_nil]
    exact lexes_token (lexOne_name hmetric hhead) hbraces

lemma lexes_blank (hs : Lexes s ts) : Lexes (' ' :: s) ts :=
  @Lexes.step _ _ [] _ rfl hs

lemma lexes_or (hs : Lexes s ts) :
    Lexes (" or ".toList ++ s) (.word "or".toList :: ts) := by
  have hblank : Lexes (' ' :: s) ts := lexes_blank hs
  have hor : Lexes ("or".toList ++ ' ' :: s) (.word "or".toList :: ts) :=
    lexes_token rfl hblank
  exact lexes_blank hor

end KubeWaf.Lib.Promql
