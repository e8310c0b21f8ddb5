import KubeWaf.Lib.Promql.Lexer
import Mathlib

/-!
# The grammar of PromQL

Which token lists are expressions, and which vector selectors they have. Types and precedences are
left out, so every expression of Prometheus is one here, with the same selectors. The selectors of
an expression do not depend on the derivation: an automaton that only knows whether an operand or
an operator is due finds them in the tokens.
-/

namespace KubeWaf.Lib.Promql

open List

/-! ## Words -/

/-- What a word is to the grammar, beside a name. -/
inductive WordKind where
  /-- `by`, `without` -/
  | groupBy
  /-- `on`, `ignoring` -/
  | matching
  /-- `group_left`, `group_right` -/
  | group
  /-- `and`, `or`, `unless` -/
  | setOperator
  | atan2
  | offset
  | bool
  /-- `inf`, `nan` -/
  | number
  | plain
deriving DecidableEq

def lower (w : List Char) : List Char := w.map Go.toLower

def keywords : List (List Char × WordKind) :=
  [("by".toList, .groupBy), ("without".toList, .groupBy),
    ("on".toList, .matching), ("ignoring".toList, .matching),
    ("group_left".toList, .group), ("group_right".toList, .group),
    ("and".toList, .setOperator), ("or".toList, .setOperator), ("unless".toList, .setOperator),
    ("atan2".toList, .atan2), ("offset".toList, .offset), ("bool".toList, .bool),
    ("inf".toList, .number), ("nan".toList, .number)]

/-- Keywords are read without regard to case. -/
def wordKind (w : List Char) : WordKind := (keywords.lookup (lower w)).getD .plain

/-- The words that can name a metric: all but those that are never anything else than keywords. -/
def isMetricName (w : List Char) : Bool :=
  wordKind w ∈ [.plain, .groupBy, .setOperator, .offset]

def aggregators : List (List Char) :=
  ["sum".toList, "min".toList, "max".toList, "avg".toList, "group".toList, "stddev".toList,
    "stdvar".toList, "count".toList, "count_values".toList, "bottomk".toList, "topk".toList,
    "quantile".toList, "limitk".toList, "limit_ratio".toList]

def isAggregator (w : List Char) : Bool := lower w ∈ aggregators

/-! ## Expressions -/

def startsParen : List Token → Bool
  | .lparen :: _ => true
  | _ => false

/-- The inside of a list of labels. -/
def IsLabels (ls : List Token) : Prop :=
  ∀ t ∈ ls, t = .str ∨ t = .comma ∨ ∃ w, t = .word w

def IsBinaryOperator (t : Token) : Prop :=
  (∃ sym, t = .op sym) ∨ ∃ w, t = .word w ∧ (wordKind w = .setOperator ∨ wordKind w = .atan2)

def IsNumber (t : Token) : Prop := t = .num ∨ ∃ w, t = .word w ∧ wordKind w = .number

/-- The modifiers of a binary operator in front of its second operand. A group modifier takes a
parenthesis that follows it for its labels. -/
inductive IsModifiers : List Token → List Token → Prop
  | nil {next : List Token} : IsModifiers [] next
  | bool {w : List Char} {m next : List Token} :
      wordKind w = .bool → IsModifiers m next → IsModifiers (.word w :: m) next
  | labels {w : List Char} {ls m next : List Token} :
      wordKind w = .matching ∨ wordKind w = .group → IsLabels ls → IsModifiers m next →
      IsModifiers (.word w :: .lparen :: (ls ++ .rparen :: m)) next
  | group {w : List Char} {m next : List Token} :
      wordKind w = .group → startsParen (m ++ next) = false → IsModifiers m next →
      IsModifiers (.word w :: m) next

/-- The nonterminals of the grammar. -/
inductive Phrase where
  | expr
  | args
deriving DecidableEq

/-- The tokens of a phrase, with the matchers of its vector selectors in order. -/
inductive Derives : Phrase → List Token → List (List Matcher) → Prop
  | number {t : Token} : IsNumber t → Derives .expr [t] []
  | str : Derives .expr [.str] []
  | metric {w : List Char} : isMetricName w = true → Derives .expr [.word w] [[]]
  | selector {ms : List Matcher} : Derives .expr [.braces ms] [ms]
  | metricSelector {w : List Char} {ms : List Matcher} :
      isMetricName w = true → Derives .expr [.word w, .braces ms] [ms]
  | paren {ts : List Token} {sels : List (List Matcher)} :
      Derives .expr ts sels → Derives .expr (.lparen :: (ts ++ [.rparen])) sels
  | unary {sym : List Char} {ts : List Token} {sels : List (List Matcher)} :
      Derives .expr ts sels → Derives .expr (.op sym :: ts) sels
  | binary {t : Token} {l m r : List Token} {sels sels' : List (List Matcher)} :
      Derives .expr l sels → IsBinaryOperator t → IsModifiers m r → Derives .expr r sels' →
      Derives .expr (l ++ t :: (m ++ r)) (sels ++ sels')
  | call {w : List Char} {as : List Token} {sels : List (List Matcher)} :
      wordKind w = .plain → Derives .args as sels →
      Derives .expr (.word w :: .lparen :: (as ++ [.rparen])) sels
  | aggregateBy {w g : List Char} {ls as : List Token} {sels : List (List Matcher)} :
      isAggregator w = true → wordKind g = .groupBy → IsLabels ls → Derives .args as sels →
      Derives .expr
        (.word w :: .word g :: .lparen :: (ls ++ .rparen :: .lparen :: (as ++ [.rparen]))) sels
  | byAggregate {w g : List Char} {ls as : List Token} {sels : List (List Matcher)} :
      isAggregator w = true → wordKind g = .groupBy → IsLabels ls → Derives .args as sels →
      Derives .expr
        (.word w :: .lparen :: (as ++ .rparen :: .word g :: .lparen :: (ls ++ [.rparen]))) sels
  | range {ts : List Token} {sels : List (List Matcher)} :
      Derives .expr ts sels → Derives .expr (ts ++ [.range]) sels
  | offset {w : List Char} {t : Token} {ts : List Token} {sels : List (List Matcher)} :
      Derives .expr ts sels → wordKind w = .offset → IsNumber t →
      Derives .expr (ts ++ [.word w, t]) sels
  | offsetSigned {w sym : List Char} {t : Token} {ts : List Token}
      {sels : List (List Matcher)} :
      Derives .expr ts sels → wordKind w = .offset → IsNumber t →
      Derives .expr (ts ++ [.word w, .op sym, t]) sels
  | atTime {t : Token} {ts : List Token} {sels : List (List Matcher)} :
      Derives .expr ts sels → IsNumber t → Derives .expr (ts ++ [.atSign, t]) sels
  | atSigned {sym : List Char} {t : Token} {ts : List Token} {sels : List (List Matcher)} :
      Derives .expr ts sels → IsNumber t → Derives .expr (ts ++ [.atSign, .op sym, t]) sels
  | atBound {w : List Char} {ts : List Token} {sels : List (List Matcher)} :
      Derives .expr ts sels → wordKind w = .plain →
      Derives .expr (ts ++ [.atSign, .word w, .lparen, .rparen]) sels
  | noArgs : Derives .args [] []
  | lastArg {ts : List Token} {sels : List (List Matcher)} :
      Derives .expr ts sels → Derives .args ts sels
  | arg {ts as : List Token} {sels sels' : List (List Matcher)} :
      Derives .expr ts sels → Derives .args as sels' →
      Derives .args (ts ++ .comma :: as) (sels ++ sels')

/-- A query parses, and these are its vector selectors. -/
def Parses (s : List Char) (sels : List (List Matcher)) : Prop :=
  ∃ ts, Lexes s ts ∧ Derives .expr ts sels

/-! ## Finding the selectors -/

/-- What can follow an operand. -/
def follows : List Token → Bool
  | [] => true
  | .rparen :: _ | .comma :: _ | .op _ :: _ | .range :: _ | .atSign :: _ => true
  | .word w :: _ => wordKind w ∈ [.setOperator, .atan2, .offset]
  | _ => false

/-- Where the automaton is: at an operand or an operator, before or inside a list of labels (with
the place to which it goes back). -/
inductive Scan where
  | place (operand : Bool)
  | opening (operand : Bool)
  | labels (operand : Bool)
deriving DecidableEq

/-- The place behind a word that is no metric on its own. -/
def afterWord (operand : Bool) (w : List Char) : Bool :=
  match wordKind w with
  | .number => false
  | .setOperator | .offset | .bool | .atan2 => true
  | .groupBy | .matching | .group | .plain => operand

/-- A word takes the parenthesis behind it for a list of labels. -/
def takesLabels (w : List Char) : Bool := wordKind w ∈ [.groupBy, .matching, .group]

/-- The selectors in a list of tokens. A word that can name a metric is one if an operand is due
and something follows that can only stand behind an operand. -/
def scan : Scan → List Token → List (List Matcher)
  | _, [] => []
  | .place _, .braces ms :: ts => ms :: scan (.place false) ts
  | .place _, .num :: ts | .place _, .str :: ts | .place _, .range :: ts
  | .place _, .rparen :: ts => scan (.place false) ts
  | .place _, .lparen :: ts | .place _, .comma :: ts | .place _, .op _ :: ts
  | .place _, .atSign :: ts => scan (.place true) ts
  | .place b, .word w :: ts =>
    if takesLabels w ∧ startsParen ts then scan (.opening b) ts
    else if b ∧ isMetricName w ∧ follows ts then [] :: scan (.place false) ts
    else if b ∧ isMetricName w then scan (.place true) ts
    else scan (.place (afterWord b w)) ts
  | .opening b, _ :: ts => scan (.labels b) ts
  | .labels b, .rparen :: ts => scan (.place b) ts
  | .labels b, .word _ :: ts | .labels b, .str :: ts | .labels b, .comma :: ts =>
    scan (.labels b) ts
  | .labels _, _ :: _ => []

section
variable {b : Bool} {w : List Char} {t : Token} {ts ls m next : List Token}

-- the equations of `scan`, stated once for the lemmas below
attribute [local simp] scan

lemma scan_word (b : Bool) (w : List Char) (ts : List Token) :
    scan (.place b) (.word w :: ts) =
      if takesLabels w ∧ startsParen ts then scan (.opening b) ts
      else if b ∧ isMetricName w ∧ follows ts then [] :: scan (.place false) ts
      else if b ∧ isMetricName w then scan (.place true) ts
      else scan (.place (afterWord b w)) ts := by
  rw [scan]

lemma scan_labels (h : IsLabels ls) :
    scan (.labels b) (ls ++ .rparen :: ts) = scan (.place b) ts := by
  induction ls with
  | nil => rfl
  | cons t ls ih =>
    have hls : IsLabels ls := fun u hu => h u (mem_cons_of_mem _ hu)
    rcases h t mem_cons_self with rfl | rfl | ⟨w, rfl⟩
    all_goals
      rw [cons_append, scan]
      exact ih hls

lemma scan_takesLabels (hw : takesLabels w = true) (h : IsLabels ls) :
    scan (.place b) (.word w :: .lparen :: (ls ++ .rparen :: ts)) = scan (.place b) ts := by
  rw [scan_word, if_pos ⟨hw, rfl⟩, scan]
  exact scan_labels h

lemma scan_word_operator (h : (takesLabels w && startsParen ts) = false) :
    scan (.place false) (.word w :: ts) = scan (.place (afterWord false w)) ts := by
  have hlabels : ¬(takesLabels w = true ∧ startsParen ts = true) := by
    rcases Bool.and_eq_false_iff.mp h with h | h <;> simp [h]
  rw [scan_word, if_neg hlabels, if_neg (by simp), if_neg (by simp)]

lemma scan_word_keyword (hw : isMetricName w = false)
    (h : (takesLabels w && startsParen ts) = false) :
    scan (.place b) (.word w :: ts) = scan (.place (afterWord b w)) ts := by
  have hlabels : ¬(takesLabels w = true ∧ startsParen ts = true) := by
    rcases Bool.and_eq_false_iff.mp h with h | h <;> simp [h]
  rw [scan_word, if_neg hlabels, if_neg (by simp [hw]), if_neg (by simp [hw])]

lemma scan_word_name (hw : isMetricName w = true) (hfollow : follows ts = false)
    (h : (takesLabels w && startsParen ts) = false) :
    scan (.place true) (.word w :: ts) = scan (.place true) ts := by
  have hlabels : ¬(takesLabels w = true ∧ startsParen ts = true) := by
    rcases Bool.and_eq_false_iff.mp h with h | h <;> simp [h]
  rw [scan_word, if_neg hlabels, if_neg (by simp [hfollow]), if_pos ⟨rfl, hw⟩]

lemma takesLabels_of_plain (h : wordKind w = .plain) : takesLabels w = false := by
  rw [takesLabels, h]
  rfl

lemma isMetricName_of_plain (h : wordKind w = .plain) : isMetricName w = true := by
  rw [isMetricName, h]
  rfl

lemma scan_plain (hw : wordKind w = .plain) (h : b = false ∨ follows ts = false) :
    scan (.place b) (.word w :: ts) = scan (.place b) ts := by
  have hlabels : (takesLabels w && startsParen ts) = false := by
    rw [takesLabels_of_plain hw, Bool.false_and]
  cases b with
  | false =>
    rw [scan_word_operator hlabels, afterWord, hw]
  | true =>
    have hfollow : follows ts = false := by simpa using h
    exact scan_word_name (isMetricName_of_plain hw) hfollow hlabels

lemma wordKind_of_isAggregator (h : isAggregator w = true) : wordKind w = .plain := by
  have hall : ∀ a ∈ aggregators, (keywords.lookup a).getD WordKind.plain = .plain := by decide
  exact hall (lower w) (by simpa [isAggregator] using h)

lemma scan_number (h : IsNumber t) (ts : List Token) :
    scan (.place b) (t :: ts) = scan (.place false) ts := by
  rcases h with rfl | ⟨w, rfl, hw⟩
  · rw [scan]
  · have hname : isMetricName w = false := by rw [isMetricName, hw]; rfl
    have hlabels : takesLabels w = false := by rw [takesLabels, hw]; rfl
    rw [scan_word_keyword hname (by rw [hlabels, Bool.false_and]), afterWord, hw]

lemma scan_binaryOperator (h : IsBinaryOperator t) (ts : List Token) :
    scan (.place false) (t :: ts) = scan (.place true) ts := by
  rcases h with ⟨sym, rfl⟩ | ⟨w, rfl, hw⟩
  · rw [scan]
  · have hlabels : takesLabels w = false := by
      rw [takesLabels]
      rcases hw with hw | hw <;> rw [hw] <;> rfl
    have hafter : afterWord false w = true := by
      rw [afterWord]
      rcases hw with hw | hw <;> rw [hw]
    rw [scan_word_operator (by rw [hlabels, Bool.false_and]), hafter]

lemma startsParen_append (h : next ≠ []) :
    startsParen (next ++ ts) = startsParen next := by
  cases next with
  | nil => exact absurd rfl h
  | cons t next => cases t <;> rfl

lemma scan_modifiers (h : IsModifiers m next) (hnext : next ≠ []) (rest : List Token) :
    scan (.place true) (m ++ (next ++ rest)) = scan (.place true) (next ++ rest) := by
  induction h with
  | nil => rfl
  | @bool w m next hw hm ih =>
    have hname : isMetricName w = false := by rw [isMetricName, hw]; rfl
    have hlabels : takesLabels w = false := by rw [takesLabels, hw]; rfl
    rw [cons_append, scan_word_keyword hname (by rw [hlabels, Bool.false_and]), afterWord, hw]
    exact ih hnext
  | @labels w ls m next hw hls hm ih =>
    have hlabels : takesLabels w = true := by
      rw [takesLabels]
      rcases hw with hw | hw <;> rw [hw] <;> rfl
    rw [cons_append, cons_append, append_assoc, cons_append, scan_takesLabels hlabels hls]
    exact ih hnext
  | @group w m next hw hparen hm ih =>
    have hname : isMetricName w = false := by rw [isMetricName, hw]; rfl
    have hstart : startsParen (m ++ (next ++ rest)) = false := by
      rw [← append_assoc, startsParen_append (by simp [hnext]), hparen]
    rw [cons_append, scan_word_keyword hname (by rw [hstart, Bool.and_false]), afterWord, hw]
    exact ih hnext

/-- What must follow a phrase. -/
def Closes : Phrase → List Token → Prop
  | .expr, rest => follows rest = true
  | .args, rest => ∃ rest', rest = .rparen :: rest'

lemma follows_binaryOperator (h : IsBinaryOperator t) : follows (t :: ts) = true := by
  rcases h with ⟨sym, rfl⟩ | ⟨w, rfl, hw⟩
  · rfl
  · rw [follows]
    rcases hw with hw | hw <;> rw [hw] <;> rfl

lemma follows_offset (h : wordKind w = .offset) : follows (.word w :: ts) = true := by
  rw [follows, h]
  rfl

lemma scan_offset (h : wordKind w = .offset) :
    scan (.place false) (.word w :: ts) = scan (.place true) ts := by
  have hlabels : takesLabels w = false := by rw [takesLabels, h]; rfl
  rw [scan_word_operator (by rw [hlabels, Bool.false_and]), afterWord, h]

lemma takesLabels_of_groupBy (h : wordKind w = .groupBy) : takesLabels w = true := by
  rw [takesLabels, h]
  rfl

lemma Derives.ne_nil {sels : List (List Matcher)} (h : Derives .expr ts sels) : ts ≠ [] := by
  cases h <;> simp

end

lemma scan_derives {p : Phrase} {ts : List Token} {sels : List (List Matcher)}
    (h : Derives p ts sels) (rest : List Token) (hrest : Closes p rest) :
    scan (.place true) (ts ++ rest) = sels ++ scan (.place false) rest := by
  induction h generalizing rest with
  | number ht => exact scan_number ht rest
  | str => rfl
  | @metric w hw =>
    have hparen : startsParen rest = false := by
      cases rest with
      | nil => rfl
      | cons t rest => cases t <;> first | rfl | exact absurd hrest (by simp [Closes, follows])
    rw [singleton_append, scan_word, if_neg (by simp [hparen]), if_pos ⟨rfl, hw, hrest⟩]
    rfl
  | selector => rfl
  | @metricSelector w ms hw =>
    show scan (.place true) (.word w :: .braces ms :: rest) = _
    rw [scan_word_name hw rfl (by simp [startsParen])]
    rfl
  | @paren ts sels _ ih =>
    rw [cons_append, append_assoc, singleton_append, scan, ih (.rparen :: rest) rfl]
    rfl
  | @unary sym ts sels _ ih =>
    rw [cons_append, scan]
    exact ih rest hrest
  | @binary t l m r sels sels' hl ht hm hr ihl ihr =>
    rw [append_assoc, cons_append, append_assoc, ihl _ (follows_binaryOperator ht),
      scan_binaryOperator ht, scan_modifiers hm hr.ne_nil, ihr rest hrest, append_assoc]
  | @call w as sels hw _ ih =>
    rw [cons_append, cons_append, append_assoc, singleton_append,
      scan_plain hw (.inr rfl), scan, ih (.rparen :: rest) ⟨rest, rfl⟩]
    rfl
  | @aggregateBy w g ls as sels hw hg hls _ ih =>
    have hfollow : ∀ ts, follows (.word g :: ts) = false := by
      intro ts
      rw [follows, hg]
      rfl
    simp only [cons_append, append_assoc]
    rw [scan_plain (wordKind_of_isAggregator hw) (.inr (hfollow _)),
      scan_takesLabels (takesLabels_of_groupBy hg) hls, scan, ih _ ⟨_, rfl⟩]
    rfl
  | @byAggregate w g ls as sels hw hg hls _ ih =>
    simp only [cons_append, append_assoc]
    rw [scan_plain (wordKind_of_isAggregator hw) (.inr rfl), scan, ih _ ⟨_, rfl⟩, scan,
      scan_takesLabels (takesLabels_of_groupBy hg) hls]
    rfl
  | @range ts sels _ ih =>
    rw [append_assoc, singleton_append, ih (.range :: rest) rfl]
    rfl
  | @offset w t ts sels _ hw ht ih =>
    have hts := ih (.word w :: t :: rest) (follows_offset hw)
    rw [scan_offset hw, scan_number ht] at hts
    rw [append_assoc]
    exact hts
  | @offsetSigned w sym t ts sels _ hw ht ih =>
    have hts := ih (.word w :: .op sym :: t :: rest) (follows_offset hw)
    rw [scan_offset hw, scan, scan_number ht] at hts
    rw [append_assoc]
    exact hts
  | @atTime t ts sels _ ht ih =>
    have hts := ih (.atSign :: t :: rest) rfl
    rw [scan, scan_number ht] at hts
    rw [append_assoc]
    exact hts
  | @atSigned sym t ts sels _ ht ih =>
    have hts := ih (.atSign :: .op sym :: t :: rest) rfl
    rw [scan, scan, scan_number ht] at hts
    rw [append_assoc]
    exact hts
  | @atBound w ts sels _ hw ih =>
    have hts := ih (.atSign :: .word w :: .lparen :: .rparen :: rest) rfl
    rw [scan, scan_plain hw (.inr rfl)] at hts
    rw [append_assoc]
    exact hts
  | noArgs =>
    obtain ⟨rest', rfl⟩ := hrest
    rfl
  | @lastArg ts sels _ ih =>
    obtain ⟨rest', rfl⟩ := hrest
    exact ih _ rfl
  | @arg ts as sels sels' _ _ ih ihs =>
    rw [append_assoc, cons_append, ih (.comma :: (as ++ rest)) rfl, scan, ihs rest hrest,
      append_assoc]

lemma scan_eq_of_derives {ts : List Token} {sels : List (List Matcher)}
    (h : Derives .expr ts sels) : scan (.place true) ts = sels := by
  have hscan := scan_derives h [] rfl
  rwa [append_nil, scan, append_nil] at hscan

end KubeWaf.Lib.Promql
