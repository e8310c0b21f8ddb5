import KubeWaf.Lib.ExceptLemmas
import KubeWaf.Lib.GoBytes
import KubeWaf.Lib.GoQuote
import Mathlib

/-!
# Scoping PromQL queries

The rewriter that puts the identity of the authorised WAFs into every vector selector of a query.
It walks over the bytes of the query without parsing it. A position in the query is given by the
text from there on. The variable `quote` of its scanners, with the byte they skip behind a
backslash, is the automaton `Quote`.
-/

namespace KubeWaf.Subresource

open Lib

/-- The Prometheus scope of one WAF object. -/
structure WAFIdentity where
  ns : List Char
  name : List Char
deriving DecidableEq

/-- How a rewrite ends without a result: with an error, or in the panic of a slice `q[a:b]` with
`a > b`. -/
inductive Failure where
  | error (message : String)
  | slice
deriving DecidableEq

def promqlKeywords : List (List Char) :=
  ["and".toList, "or".toList, "unless".toList, "by".toList, "without".toList, "on".toList,
    "ignoring".toList, "group_left".toList, "group_right".toList, "bool".toList,
    "offset".toList, "inf".toList, "nan".toList, "atan2".toList]

def promqlAggregators : List (List Char) :=
  ["sum".toList, "min".toList, "max".toList, "avg".toList, "group".toList, "stddev".toList,
    "stdvar".toList, "count".toList, "count_values".toList, "bottomk".toList, "topk".toList,
    "quantile".toList]

/-- The functions whose call is distributed over the WAFs. -/
def rangeVectorFuncs : List (List Char) :=
  ["increase".toList, "rate".toList, "irate".toList, "delta".toList, "idelta".toList,
    "deriv".toList, "resets".toList, "changes".toList, "predict_linear".toList,
    "avg_over_time".toList, "min_over_time".toList, "max_over_time".toList,
    "sum_over_time".toList, "count_over_time".toList, "stddev_over_time".toList,
    "stdvar_over_time".toList, "last_over_time".toList, "present_over_time".toList,
    "absent_over_time".toList, "holt_winters".toList]

def maxPromQLUnionWAFs : ℕ := 256

/-! ## Reading the query -/

def toLower (s : List Char) : List Char := s.map Go.toLower

def startsWith (c : Char) : List Char → Bool
  | [] => false
  | d :: _ => d == c

def isIdentStart (c : Char) : Bool := c == '_' || c == ':' || Go.isLetter c

def isIdentCont (c : Char) : Bool := isIdentStart c || Go.isDigit c

/-- The identifier at a position, and the position behind it. -/
def readIdent : List Char → List Char × List Char
  | [] => ([], [])
  | c :: s =>
    if isIdentStart c then (c :: s.takeWhile isIdentCont, s.dropWhile isIdentCont)
    else ([], c :: s)

def isSpace (c : Char) : Bool := c == ' ' || c == '\t' || c == '\n' || c == '\r'

def skipSpace (q : List Char) : List Char := q.dropWhile isSpace

/-- The bytes between two positions, the second of which is not before the first. -/
def between (q rest : List Char) : List Char := q.take (q.length - rest.length)

def startsWithDigit : List Char → Bool
  | [] => false
  | c :: _ => Go.isDigit c

def isNumberStart : List Char → Bool
  | [] => false
  | c :: s => Go.isDigit c || (c == '.' && startsWithDigit s)

/-- The position behind a decimal number. -/
def skipNumber (q : List Char) : List Char :=
  let q := q.dropWhile Go.isDigit
  let q := match q with
    | [] => []
    | c :: s => if c = '.' then s.dropWhile Go.isDigit else c :: s
  match q with
  | [] => []
  | c :: s =>
    if c = 'e' ∨ c = 'E' then
      let j := match s with
        | [] => []
        | d :: t => if d = '+' ∨ d = '-' then t else d :: t
      if startsWithDigit j then j.dropWhile Go.isDigit else c :: s
    else c :: s

/-- The string literal at a position, and the position behind it. -/
def skipQuoted (q : List Char) : Except Failure (List Char × List Char) :=
  match scanUntil literalStep .outside q with
  | none => .error (.error "unterminated string")
  | some r => .ok r

def isClosingBrace (c : Char) : Bool := c == '\x7d'

/-- The braces at a position, and the position behind them. -/
def readSelector : List Char → Except Failure (List Char × List Char)
  | [] => .error (.error "expected '\x7b'")
  | c :: s =>
    if c ≠ '\x7b' then .error (.error "expected '\x7b'")
    else
      match scanUntil (guardStep isClosingBrace) .outside s with
      | none => .error (.error "unterminated selector")
      | some (text, rest) => .ok (c :: text, rest)

/-- The step of a scanner that counts open brackets outside of string literals. -/
def nestedStep (opening closing : Char) (st : Quote × ℤ) (c : Char) : Option (Quote × ℤ) :=
  if st.1 = .outside then
    if isQuote c then some (.inside c, st.2)
    else if c = opening then some (.outside, st.2 + 1)
    else if c = closing then
      if st.2 - 1 = 0 then none else some (.outside, st.2 - 1)
    else some st
  else some (st.1.next c, st.2)

/-- The bracketed text at a position, and the position behind it. -/
def skipNested (opening closing : Char) (expected unterminated : String) (q : List Char) :
    Except Failure (List Char × List Char) :=
  if !startsWith opening q then .error (.error expected)
  else
    match scanUntil (nestedStep opening closing) (.outside, 0) q with
    | none => .error (.error unterminated)
    | some r => .ok r

def skipBracket : List Char → Except Failure (List Char × List Char) :=
  skipNested '[' ']' "expected '['" "unterminated range"

def skipParen : List Char → Except Failure (List Char × List Char) :=
  skipNested '(' ')' "expected '('" "unterminated grouping"

/-! ## Matchers -/

def splitLoop : Quote → List Char → List Char → Except Failure (List (List Char))
  | st, cur, [] =>
    if st ≠ .outside then .error (.error "unterminated matcher string")
    else
      let s := Go.trimSpaceBytes cur
      .ok (if s ≠ [] then [s] else [])
  | st, cur, c :: s =>
    if st = .outside ∧ c = ',' then
      (splitLoop .outside [] s).map fun parts => Go.trimSpaceBytes cur :: parts
    else splitLoop (st.next c) (cur ++ [c]) s

def splitMatchers (inner : List Char) : Except Failure (List (List Char)) :=
  let inner := Go.trimSpaceBytes inner
  if inner = [] then .ok [] else splitLoop .outside [] inner

def unquoteProm (s : List Char) : List Char :=
  let s := Go.trimSpaceBytes s
  match s with
  | c :: d :: t =>
    if isQuote c ∧ (d :: t).getLast? = some c then (d :: t).dropLast else s
  | _ => s

/-- A matcher read with one of the operators. -/
def parseMatcherWith (m cand : List Char) : Option (List Char × List Char × List Char) :=
  match Go.cutAt cand m with
  | some (c :: before, behind) =>
    some (Go.trimSpaceBytes (c :: before), cand, unquoteProm (Go.trimSpaceBytes behind))
  | _ => none

def matchOperators : List (List Char) := ["=~".toList, "!~".toList, "!=".toList, "=".toList]

/-- The key, operator and value of a matcher. -/
def parseMatcher (m : List Char) : Option (List Char × List Char × List Char) :=
  match matchOperators.findSome? (parseMatcherWith (Go.trimSpaceBytes m)) with
  | some (key, op, val) => if key ≠ [] then some (key, op, val) else none
  | none => none

def isIdentityKey (key : List Char) : Bool :=
  key == "waf_namespace".toList || key == "waf_name".toList

/-- One round of the loop of `extractIdentityMatchers`. -/
def extractStep (found : List Char × List Char) (m : List Char) :
    Except Failure (List Char × List Char) :=
  match parseMatcher m with
  | none => .ok found
  | some (key, op, val) =>
    if op ≠ "=".toList then
      if isIdentityKey key then
        .error (.error ("identity matcher " ++ String.ofList key ++ " must be exact equality"))
      else .ok found
    else if key = "waf_namespace".toList then .ok (val, found.2)
    else if key = "waf_name".toList then .ok (found.1, val)
    else .ok found

def extractIdentityMatchers (inner : List Char) : Except Failure (List Char × List Char) := do
  let matchers ← splitMatchers inner
  matchers.foldlM extractStep ([], [])

def rejectForeignIdentity (inner : List Char) (allowed : List WAFIdentity) :
    Except Failure Unit := do
  let (ns, name) ← extractIdentityMatchers inner
  if ns = [] ∧ name = [] then .ok ()
  else if allowed.any fun id => (ns = [] ∨ ns = id.ns) ∧ (name = [] ∨ name = id.name) then .ok ()
  else .error (.error "query identity escapes authorized WAF scope")

def keepMatcher (m : List Char) : Bool :=
  match parseMatcher m with
  | some (key, _, _) => !isIdentityKey key
  | none => true

def stripIdentityMatchers (inner : List Char) : List Char :=
  match splitMatchers inner with
  | .error _ => inner
  | .ok matchers => Go.join [','] (matchers.filter keepMatcher)

/-! ## Scoped selectors

`isPrint` is `strconv.IsPrint` above ASCII, on which the verb `%q` depends. -/

section
variable (isPrint : ℕ → Bool)

def identityScope (id : WAFIdentity) : List Char :=
  "waf_namespace=".toList ++ Go.quote isPrint id.ns ++ ",waf_name=".toList ++
    Go.quote isPrint id.name

def injectIdentity (metric inner : List Char) (id : WAFIdentity) :
    Except Failure (List Char) :=
  if id.ns = [] ∨ id.name = [] then .error (.error "invalid WAF identity")
  else
    let scope := identityScope isPrint id
    let body :=
      if Go.trimSpaceBytes inner = [] then scope else scope ++ ',' :: Go.trimSpaceBytes inner
    .ok (metric ++ '\x7b' :: body ++ ['\x7d'])

/-- The range behind a selector, and the position behind it. -/
def readRange (afterSel : List Char) : Except Failure (List Char × List Char) :=
  if startsWith '[' (skipSpace afterSel) then do
    let (_, rest) ← skipBracket (skipSpace afterSel)
    .ok (between afterSel rest, rest)
  else .ok ([], afterSel)

def scopedSelectorParts (ids : List WAFIdentity) (metric inner afterSel : List Char) :
    Except Failure (List (List Char) × List Char) := do
  rejectForeignIdentity inner ids
  let cleaned := stripIdentityMatchers inner
  let (rangeStr, after) ← readRange afterSel
  let parts ← ids.mapM fun id => do
    let sel ← injectIdentity isPrint metric cleaned id
    .ok (sel ++ rangeStr)
  .ok (parts, after)

/-- The parts, or their union if they are not exactly one. -/
def orUnion : List (List Char) → List Char
  | [part] => part
  | parts => '(' :: Go.join " or ".toList parts ++ [')']

def emitScopedSelectors (ids : List WAFIdentity) (metric inner afterSel : List Char) :
    Except Failure (List Char × List Char) := do
  let (parts, after) ← scopedSelectorParts isPrint ids metric inner afterSel
  .ok (orUnion parts, after)

/-- The matchers between the braces of a selector. -/
def selectorInner (sel : List Char) : List Char :=
  Go.trimSpaceBytes (Go.trimPrefix (Go.trimSuffix sel ['\x7d']) ['\x7b'])

def rewriteSelectorAt (ids : List WAFIdentity) (metric brace : List Char) :
    Except Failure (List Char × List Char) := do
  let (sel, after) ← readSelector brace
  emitScopedSelectors isPrint ids metric (selectorInner sel) after

def rewriteNamedMetric (ids : List WAFIdentity) (metric afterIdent : List Char) :
    Except Failure (List Char × List Char) :=
  emitScopedSelectors isPrint ids metric [] afterIdent

/-! ## Calls of range functions -/

/-- The selector that is the first argument of a call: its metric, its matchers and the position
behind it. There is none if the argument starts with anything else. -/
def rangeArgument : List Char →
    Except Failure (Option (List Char × List Char × List Char))
  | [] => .ok none
  | _ :: s => do
    let i := skipSpace s
    let metric := (readIdent i).1
    let i := if metric ≠ [] then skipSpace (readIdent i).2 else i
    if startsWith '\x7b' i then
      let (sel, after) ← readSelector i
      .ok (some (metric, selectorInner sel, after))
    else if metric = [] then .ok none
    else .ok (some (metric, [], i))

/-- `q[afterSel : end-1]`. -/
def extraArguments (afterSel behind : List Char) : Except Failure (List Char) :=
  if afterSel.length < behind.length + 1 then .error .slice
  else .ok (afterSel.take (afterSel.length - (behind.length + 1)))

def isBrace (c : Char) : Bool := c == '\x7b' || c == '\x7d'

/-- The call of a range function on a selector, distributed over the WAFs, and the position behind
it. There is no result if the argument is no plain selector. -/
def rewriteRangeFuncCall (ids : List WAFIdentity) (ident paren : List Char) :
    Except Failure (Option (List Char × List Char)) := do
  match ← rangeArgument paren with
  | none => .ok none
  | some (metric, inner, afterSel) =>
    let (parts, afterSel) ← scopedSelectorParts isPrint ids metric inner afterSel
    let (_, behind) ← skipParen paren
    let extra ← extraArguments afterSel behind
    if extra.any isBrace then .ok none
    else
      let calls := parts.map fun part => ident ++ '(' :: part ++ extra ++ [')']
      .ok (some (orUnion calls, behind))

/-! ## The walk over the query -/

def isGroupingKeyword (low : List Char) : Bool :=
  low ∈ ["by".toList, "without".toList, "on".toList, "ignoring".toList, "group_left".toList,
    "group_right".toList]

def isAggModifier (j : List Char) : Bool :=
  match j with
  | [] => false
  | c :: _ =>
    if c = '(' then true
    else
      let low := toLower (readIdent j).1
      if low ≠ "by".toList ∧ low ≠ "without".toList then false
      else startsWith '(' (skipSpace (readIdent j).2)

/-- The list of labels behind a grouping keyword, and the position behind it. -/
def copyGroupingList (q : List Char) : List Char × List Char :=
  if !startsWith '(' (skipSpace q) then ([], q)
  else
    match skipParen (skipSpace q) with
    | .error _ => ([], q)
    | .ok (_, rest) => (between q rest, rest)

/-- The branches of the loop of `rewritePromQL`, with the identifier they have read and the
positions they go on from. -/
inductive Branch where
  | quoted
  | number
  | bracket
  | selector
  | keyword (ident next : List Char)
  | call (ident next paren : List Char)
  | aggregator (ident next : List Char)
  | metricSelector (ident brace : List Char)
  | metric (ident next : List Char)
  | byte (c : Char) (next : List Char)
deriving DecidableEq

/-- The branch that the loop takes at a position. -/
def branch (c : Char) (s : List Char) : Branch :=
  if isQuote c then .quoted
  else if isNumberStart (c :: s) then .number
  else if c = '[' then .bracket
  else if c = '\x7b' then .selector
  else if isIdentStart c then
    let ident := (readIdent (c :: s)).1
    let next := (readIdent (c :: s)).2
    let low := toLower ident
    if low ∈ promqlKeywords then .keyword ident next
    else
      let j := skipSpace next
      if startsWith '(' j then .call ident next j
      else if low ∈ promqlAggregators ∧ isAggModifier j then .aggregator ident next
      else if startsWith '\x7b' j then .metricSelector ident j
      else .metric ident next
  else .byte c s

/-- One round of the loop of `rewritePromQL`: what it writes, and the position it goes on from. -/
def rewriteStep (ids : List WAFIdentity) (c : Char) (s : List Char) :
    Except Failure (List Char × List Char) :=
  match branch c s with
  | .quoted => skipQuoted (c :: s)
  | .number => .ok (between (c :: s) (skipNumber (c :: s)), skipNumber (c :: s))
  | .bracket => skipBracket (c :: s)
  | .selector => rewriteSelectorAt isPrint ids [] (c :: s)
  | .keyword ident next =>
    if isGroupingKeyword (toLower ident) then
      .ok (ident ++ (copyGroupingList next).1, (copyGroupingList next).2)
    else .ok (ident, next)
  | .call ident next paren =>
    if toLower ident ∈ rangeVectorFuncs then do
      match ← rewriteRangeFuncCall isPrint ids ident paren with
      | some r => .ok r
      | none => .ok (ident, next)
    else .ok (ident, next)
  | .aggregator ident next => .ok (ident, next)
  | .metricSelector ident brace => rewriteSelectorAt isPrint ids ident brace
  | .metric ident next => rewriteNamedMetric isPrint ids ident next
  | .byte c next => .ok ([c], next)

/-- The loop of `rewritePromQL`, for at most `n` rounds. -/
def rewriteLoop (ids : List WAFIdentity) : ℕ → List Char → Except Failure (List Char)
  | _, [] => .ok []
  | 0, _ => .ok []
  | n + 1, c :: s => do
    let (out, next) ← rewriteStep isPrint ids c s
    let rest ← rewriteLoop ids n next
    .ok (out ++ rest)

/-- Every round reads a byte, so there are at most as many rounds as bytes. -/
def rewritePromQL (query : List Char) (ids : List WAFIdentity) : Except Failure (List Char) :=
  rewriteLoop isPrint ids query.length query

def scopePromQL (query ns name : List Char) : Except Failure (List Char) :=
  if Go.trimSpaceBytes query = [] then .error (.error "empty query")
  else if ns = [] ∨ name = [] then .error (.error "missing WAF identity")
  else rewritePromQL isPrint query [⟨ns, name⟩]

def scopePromQLToWAFs (query : List Char) (ids : List WAFIdentity) :
    Except Failure (List Char) :=
  if Go.trimSpaceBytes query = [] then .error (.error "empty query")
  else if ids = [] then .ok "vector(0)".toList
  else rewritePromQL isPrint query (ids.take maxPromQLUnionWAFs)

end

end KubeWaf.Subresource
