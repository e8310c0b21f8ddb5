import KubeWaf.Subresource.PromqlWalk
import Mathlib

/-!
# The slices of the rewriter

The bounds of the slices `q[a:b]` come from scanners that start at the same position and so are in
order, but for one. The other arguments of a range function are what stands between the end of its
first argument and the parenthesis that closes the call. The first end is found by counting brackets
and the second by counting parentheses, so the parenthesis can stand inside of the brackets.
-/

namespace KubeWaf.Subresource

open Lib Lib.Promql List

/-- A slice `q[a:b]` of the query, by its two positions. -/
structure Slice where
  start : List Char
  stop : List Char

/-- `a ≤ b` and `b ≤ len(q)`. -/
structure Slice.InRange (q : List Char) (x : Slice) : Prop where
  start : x.start <:+ q
  stop : x.stop <:+ x.start

/-! ## The slices of a round -/

/-- The slice from a position to where a scanner has stopped. -/
def scanSlices (pos : List Char) : Except Failure (List Char × List Char) → List Slice
  | .ok (_, next) => [⟨pos, next⟩]
  | .error _ => []

def rangeSlices (afterSel : List Char) : List Slice :=
  if startsWith '[' (skipSpace afterSel) then
    scanSlices afterSel (skipBracket (skipSpace afterSel))
  else []

def groupingSlices (q : List Char) : List Slice :=
  if startsWith '(' (skipSpace q) then scanSlices q (skipParen (skipSpace q)) else []

def identSlices (q : List Char) : List Slice := [⟨q, (readIdent q).2⟩]

/-- The identifier that `isAggModifier` reads. -/
def aggModifierSlices (ident j : List Char) : List Slice :=
  if toLower ident ∈ promqlAggregators ∧ j ≠ [] ∧ startsWith '(' j = false then identSlices j else []

section
variable (isPrint : ℕ → Bool) (ids : List WAFIdentity)

def partsSlices (inner afterSel : List Char) : List Slice :=
  match rejectForeignIdentity inner ids with
  | .ok () => rangeSlices afterSel
  | .error _ => []

def selectorSlices (brace : List Char) : List Slice :=
  scanSlices brace (readSelector brace) ++
    match readSelector brace with
    | .ok (sel, after) => partsSlices ids (selectorInner sel) after
    | .error _ => []

/-- `q[afterSel : end-1]`. -/
def extraSlices (paren metric inner afterSel : List Char) : List Slice :=
  match scopedSelectorParts isPrint ids metric inner afterSel, skipParen paren with
  | .ok (_, after), .ok (_, behind) => [⟨after, paren.drop (paren.length - (behind.length + 1))⟩]
  | _, _ => []

def callSlices (paren : List Char) : List Slice :=
  let i := skipSpace paren.tail
  let metric := (readIdent i).1
  let j := if metric ≠ [] then skipSpace (readIdent i).2 else i
  (if metric ≠ [] then identSlices i else []) ++
    (if startsWith '\x7b' j then selectorSlices ids j
      else if metric ≠ [] then partsSlices ids [] j else []) ++
    match rangeArgument paren with
    | .ok (some (metric, inner, afterSel)) => extraSlices isPrint ids paren metric inner afterSel
    | _ => []

/-- The slices of the query that a round evaluates. -/
def slicesAt (c : Char) (s : List Char) : List Slice :=
  match branch c s with
  | .quoted => scanSlices (c :: s) (skipQuoted (c :: s))
  | .number => [⟨c :: s, skipNumber (c :: s)⟩]
  | .bracket => scanSlices (c :: s) (skipBracket (c :: s))
  | .selector => selectorSlices ids (c :: s)
  | .keyword ident next =>
    identSlices (c :: s) ++
      if isGroupingKeyword (toLower ident) then groupingSlices next else []
  | .call ident _ paren =>
    identSlices (c :: s) ++
      if toLower ident ∈ rangeVectorFuncs then callSlices isPrint ids paren else []
  | .aggregator ident next => identSlices (c :: s) ++ aggModifierSlices ident (skipSpace next)
  | .metricSelector ident brace =>
    identSlices (c :: s) ++ aggModifierSlices ident brace ++ selectorSlices ids brace
  | .metric ident next =>
    identSlices (c :: s) ++ aggModifierSlices ident (skipSpace next) ++ partsSlices ids [] next
  | .byte _ _ => []

/-- The rewriter goes on from one position to another. -/
def Goes (p p' : List Char) : Prop :=
  ∃ c s piece, p = c :: s ∧ rewriteStep isPrint ids c s = .ok (piece, p')

/-- The positions that the rewriter comes to in a query. -/
def Comes (q p : List Char) : Prop := Relation.ReflTransGen (Goes isPrint ids) q p

/-- No slice that the rewriting of a query evaluates is out of range. -/
structure SlicesInRange (q : List Char) : Prop where
  rounds : ∀ c s, Comes isPrint ids q (c :: s) → ∀ x ∈ slicesAt isPrint ids c s, x.InRange q
  result : rewritePromQL isPrint q ids ≠ .error .slice

end

/-- The selector that is the first argument of a call, with its range, holds the parenthesis that
closes the call. -/
def ClosesCall (ids : List WAFIdentity) (paren : List Char) : Prop :=
  ∃ metric inner afterSel rangeStr after,
    rangeArgument paren = .ok (some (metric, inner, afterSel)) ∧
    rejectForeignIdentity inner ids = .ok () ∧ (∀ id ∈ ids, id.ns ≠ [] ∧ id.name ≠ []) ∧
    readRange afterSel = .ok (rangeStr, after) ∧
    ∃ r, skipParen (between paren after) = .ok r

/-- No call of a range function that the rewriter comes to is closed in its first argument. -/
def CallsStayOpen (isPrint : ℕ → Bool) (ids : List WAFIdentity) (q : List Char) : Prop :=
  ∀ c s ident next paren, Comes isPrint ids q (c :: s) → branch c s = .call ident next paren →
    toLower ident ∈ rangeVectorFuncs → ¬ClosesCall ids paren

/-! ## Positions -/

section
variable {isPrint : ℕ → Bool} {ids : List WAFIdentity} {q p pos paren : List Char} {x : Slice}
  {α : Type} (inner : List Char)

lemma readIdent_suffix_self (q : List Char) : (readIdent q).2 <:+ q := by
  cases q with
  | nil => exact suffix_rfl
  | cons c s =>
    by_cases hc : isIdentStart c = true
    · exact (readIdent_suffix hc).trans (suffix_cons _ _)
    · rw [readIdent, if_neg hc]

lemma readSelector_suffix_self {sel after : List Char} (h : readSelector q = .ok (sel, after)) :
    after <:+ q := by
  cases q with
  | nil => exact absurd h (by simp [readSelector])
  | cons c s => exact (readSelector_suffix h).trans (suffix_cons _ _)

lemma inRange_scanSlices {r : Except Failure (List Char × List Char)} (hpos : pos <:+ q)
    (h : ∀ text next, r = .ok (text, next) → next <:+ pos) (hx : x ∈ scanSlices pos r) :
    x.InRange q := by
  cases r with
  | error e => exact absurd hx (by simp [scanSlices])
  | ok r =>
    obtain rfl := mem_singleton.mp hx
    exact ⟨hpos, h r.1 r.2 rfl⟩

lemma inRange_rangeSlices (hpos : pos <:+ q) (hx : x ∈ rangeSlices pos) : x.InRange q := by
  unfold rangeSlices at hx
  split_ifs at hx
  · refine inRange_scanSlices hpos ?_ hx
    intro text next hskip
    exact (skipNested_suffix hskip).trans (skipSpace_suffix _)
  · cases hx

lemma inRange_groupingSlices (hpos : pos <:+ q) (hx : x ∈ groupingSlices pos) :
    x.InRange q := by
  unfold groupingSlices at hx
  split_ifs at hx
  · refine inRange_scanSlices hpos ?_ hx
    intro text next hskip
    exact (skipNested_suffix hskip).trans (skipSpace_suffix _)
  · cases hx

lemma inRange_identSlices (hpos : pos <:+ q) (hx : x ∈ identSlices pos) : x.InRange q := by
  obtain rfl := mem_singleton.mp hx
  exact ⟨hpos, readIdent_suffix_self pos⟩

lemma inRange_aggModifierSlices {ident : List Char} (hpos : pos <:+ q)
    (hx : x ∈ aggModifierSlices ident pos) : x.InRange q := by
  unfold aggModifierSlices at hx
  split_ifs at hx
  · exact inRange_identSlices hpos hx
  · cases hx

lemma inRange_partsSlices {inner : List Char} (hpos : pos <:+ q)
    (hx : x ∈ partsSlices ids inner pos) : x.InRange q := by
  unfold partsSlices at hx
  split at hx
  · exact inRange_rangeSlices hpos hx
  · cases hx

lemma inRange_selectorSlices (hpos : pos <:+ q) (hx : x ∈ selectorSlices ids pos) :
    x.InRange q := by
  unfold selectorSlices at hx
  rcases mem_append.mp hx with hx | hx
  · exact inRange_scanSlices hpos (fun _ _ => readSelector_suffix_self) hx
  · split at hx
    · rename_i sel after hsel
      exact inRange_partsSlices ((readSelector_suffix_self hsel).trans hpos) hx
    · cases hx

/-! ## The end of the first argument -/

lemma rangeArgument_suffix {metric inner afterSel : List Char}
    (h : rangeArgument paren = .ok (some (metric, inner, afterSel))) : afterSel <:+ paren := by
  cases paren with
  | nil => exact absurd h (by simp [rangeArgument])
  | cons c s =>
    simp only [rangeArgument] at h
    have hpos : (if (readIdent (skipSpace s)).1 ≠ [] then skipSpace (readIdent (skipSpace s)).2
        else skipSpace s) <:+ c :: s := by
      have hspace : skipSpace s <:+ c :: s := (skipSpace_suffix s).trans (suffix_cons _ _)
      split_ifs
      · exact ((skipSpace_suffix _).trans (readIdent_suffix_self _)).trans hspace
      · exact hspace
    generalize (if (readIdent (skipSpace s)).1 ≠ [] then skipSpace (readIdent (skipSpace s)).2
      else skipSpace s) = i at h hpos
    split_ifs at h
    · obtain ⟨⟨sel, after⟩, hsel, h⟩ := bind_eq_ok.mp h
      simp only [Except.ok.injEq, Option.some.injEq, Prod.mk.injEq] at h
      rw [← h.2.2]
      exact (readSelector_suffix_self hsel).trans hpos
    · cases h
    · simp only [Except.ok.injEq, Option.some.injEq, Prod.mk.injEq] at h
      rw [← h.2.2]
      exact hpos

lemma exists_scopedSelectorParts_iff {metric inner afterSel after : List Char} :
    (∃ parts, scopedSelectorParts isPrint ids metric inner afterSel = .ok (parts, after)) ↔
      rejectForeignIdentity inner ids = .ok () ∧ (∀ id ∈ ids, id.ns ≠ [] ∧ id.name ≠ []) ∧
        ∃ rangeStr, readRange afterSel = .ok (rangeStr, after) := by
  have hinject : ∀ (rangeStr : List Char) (id : WAFIdentity),
      (∃ part, (do
        let sel ← injectIdentity isPrint metric (stripIdentityMatchers inner) id
        Except.ok (sel ++ rangeStr) : Except Failure (List Char)) = .ok part) ↔
      id.ns ≠ [] ∧ id.name ≠ [] := by
    intro rangeStr id
    simp only [bind_eq_ok, injectIdentity, ne_eq, ← not_or]
    by_cases hid : id.ns = [] ∨ id.name = []
    · simp only [if_pos hid]
      exact iff_of_false (by simp) (not_not_intro hid)
    · simp only [if_neg hid]
      exact iff_of_true ⟨_, _, rfl, rfl⟩ hid
  simp only [scopedSelectorParts, bind_eq_ok, Except.ok.injEq, Prod.mk.injEq]
  constructor
  · rintro ⟨parts, ⟨⟩, hreject, ⟨rangeStr, after'⟩, hrange, parts', hparts, rfl, rfl⟩
    refine ⟨hreject, ?_, rangeStr, hrange⟩
    intro id hid
    exact (hinject rangeStr id).mp (exists_mapM_eq_ok_iff.mp ⟨parts', hparts⟩ id hid)
  · rintro ⟨hreject, hids, rangeStr, hrange⟩
    obtain ⟨parts, hparts⟩ := exists_mapM_eq_ok_iff.mpr fun id hid =>
      (hinject rangeStr id).mpr (hids id hid)
    exact ⟨parts, (), hreject, (rangeStr, after), hrange, parts, hparts, rfl, rfl⟩

lemma skipParen_of_between {after text mid : List Char} (hafter : after <:+ paren)
    (h : skipParen (between paren after) = .ok (text, mid)) :
    skipParen paren = .ok (text, mid ++ after) := by
  obtain ⟨pre, rfl⟩ := hafter
  rw [between_append] at h
  obtain ⟨hstart, hscan⟩ := skipNested_eq_ok h
  have hlong := scanUntil_text_append hscan (mid ++ after)
  rw [← append_assoc, ← scanUntil_append hscan] at hlong
  have hopen : startsWith '(' (pre ++ after) = true := by
    obtain ⟨t, rfl⟩ := startsWith_iff.mp hstart
    rfl
  rw [skipParen, skipNested, hopen, hlong]
  rfl

lemma skipParen_between_iff {after text behind : List Char} (hafter : after <:+ paren)
    (h : skipParen paren = .ok (text, behind)) :
    (∃ r, skipParen (between paren after) = .ok r) ↔ after.length < behind.length + 1 := by
  obtain ⟨pre, rfl⟩ := hafter
  rw [between_append]
  obtain ⟨hstart, hscan⟩ := skipNested_eq_ok h
  constructor
  · rintro ⟨⟨text', mid⟩, hpre⟩
    have hbetween : skipParen (between (pre ++ after) after) = .ok (text', mid) := by
      rw [between_append]
      exact hpre
    have hlong := skipParen_of_between (suffix_append _ _) hbetween
    rw [h] at hlong
    rw [(Prod.mk.inj (Except.ok.inj hlong)).2, length_append]
    omega
  · intro hlt
    have happ : pre ++ after = text ++ behind := scanUntil_append hscan
    have hlength := congrArg List.length happ
    rw [length_append, length_append] at hlength
    obtain ⟨mid, rfl⟩ : text <+: pre :=
      prefix_of_prefix_length_le ⟨behind, happ.symm⟩ ⟨after, rfl⟩ (by omega)
    have hread := scanUntil_text_append hscan mid
    refine ⟨(text, mid), ?_⟩
    have hopen : startsWith '(' (text ++ mid) = true := by
      obtain ⟨t, ht⟩ := startsWith_iff.mp hstart
      rw [ht] at hscan
      obtain ⟨t', rfl, _⟩ := scanUntil_cons_eq_some hscan
      rfl
    rw [skipParen, skipNested, hopen, hread]
    rfl

/-! ## Where a slice can panic -/

/-- A computation that does not end in the panic of a slice. -/
def NoSlice {α : Type} (x : Except Failure α) : Prop := x ≠ .error .slice

lemma NoSlice.bind {β : Type} {x : Except Failure α} {f : α → Except Failure β} (hx : NoSlice x)
    (hf : ∀ a, x = .ok a → NoSlice (f a)) : NoSlice (x >>= f) := by
  intro h
  rcases bind_eq_error.mp h with h | ⟨a, ha, h⟩
  · exact hx h
  · exact hf a ha h

lemma noSlice_ok (a : α) : NoSlice (.ok a : Except Failure α) := by
  simp [NoSlice]

lemma noSlice_error (message : String) : NoSlice (.error (.error message) : Except Failure α) := by
  simp [NoSlice]

lemma noSlice_mapM {β : Type} {f : α → Except Failure β} {l : List α} (h : ∀ a, NoSlice (f a)) :
    NoSlice (l.mapM f) := by
  intro herror
  obtain ⟨a, _, ha⟩ := exists_of_mapM_eq_error herror
  exact h a ha

lemma noSlice_skipQuoted (q : List Char) : NoSlice (skipQuoted q) := by
  unfold skipQuoted
  split
  · exact noSlice_error _
  · exact noSlice_ok _

lemma noSlice_skipNested (opening closing : Char) (e u : String) (q : List Char) :
    NoSlice (skipNested opening closing e u q) := by
  unfold skipNested
  split_ifs
  · exact noSlice_error _
  · split
    · exact noSlice_error _
    · exact noSlice_ok _

lemma noSlice_readSelector (q : List Char) : NoSlice (readSelector q) := by
  cases q with
  | nil => exact noSlice_error _
  | cons c s =>
    rw [readSelector]
    split_ifs
    · exact noSlice_error _
    · split
      · exact noSlice_error _
      · exact noSlice_ok _

lemma noSlice_splitLoop (st : Quote) (cur q : List Char) : NoSlice (splitLoop st cur q) := by
  induction q generalizing st cur with
  | nil =>
    rw [splitLoop]
    split_ifs
    · exact noSlice_error _
    · exact noSlice_ok _
  | cons c q ih =>
    rw [splitLoop]
    split_ifs
    · intro h
      cases hrest : splitLoop .outside [] q with
      | error e =>
        rw [hrest, Except.map, Except.error.injEq] at h
        exact ih .outside [] (by rw [hrest, h])
      | ok parts =>
        rw [hrest] at h
        exact absurd h (by simp [Except.map])
    · exact ih _ _

lemma noSlice_splitMatchers : NoSlice (splitMatchers inner) := by
  simp only [splitMatchers]
  split_ifs
  · exact noSlice_ok _
  · exact noSlice_splitLoop _ _ _

lemma noSlice_extractStep (found : List Char × List Char) (m : List Char) :
    NoSlice (extractStep found m) := by
  unfold extractStep
  split
  · exact noSlice_ok _
  · split_ifs <;> first | exact noSlice_ok _ | exact noSlice_error _

lemma noSlice_extractIdentityMatchers : NoSlice (extractIdentityMatchers inner) := by
  refine (noSlice_splitMatchers inner).bind ?_
  intro matchers _
  clear * -
  generalize (([], []) : List Char × List Char) = found
  induction matchers generalizing found with
  | nil => exact noSlice_ok _
  | cons m matchers ih =>
    rw [foldlM_cons]
    exact (noSlice_extractStep found m).bind fun found' _ => ih found'

lemma noSlice_rejectForeignIdentity (ids : List WAFIdentity) :
    NoSlice (rejectForeignIdentity inner ids) := by
  refine (noSlice_extractIdentityMatchers inner).bind fun found _ => ?_
  simp only
  split_ifs <;> first | exact noSlice_ok _ | exact noSlice_error _

lemma noSlice_readRange (q : List Char) : NoSlice (readRange q) := by
  unfold readRange
  split_ifs
  · exact (noSlice_skipNested _ _ _ _ _).bind fun _ _ => noSlice_ok _
  · exact noSlice_ok _

lemma noSlice_scopedSelectorParts (metric inner afterSel : List Char) :
    NoSlice (scopedSelectorParts isPrint ids metric inner afterSel) := by
  refine (noSlice_rejectForeignIdentity inner ids).bind fun _ _ => ?_
  refine (noSlice_readRange afterSel).bind fun _ _ => ?_
  refine NoSlice.bind (noSlice_mapM fun id => ?_) fun _ _ => noSlice_ok _
  refine NoSlice.bind ?_ fun _ _ => noSlice_ok _
  unfold injectIdentity
  split_ifs
  · exact noSlice_error _
  · exact noSlice_ok _
  · exact noSlice_ok _

lemma noSlice_emitScopedSelectors (metric inner afterSel : List Char) :
    NoSlice (emitScopedSelectors isPrint ids metric inner afterSel) :=
  (noSlice_scopedSelectorParts metric inner afterSel).bind fun _ _ => noSlice_ok _

lemma noSlice_rewriteSelectorAt (metric brace : List Char) :
    NoSlice (rewriteSelectorAt isPrint ids metric brace) :=
  (noSlice_readSelector brace).bind fun _ _ => noSlice_emitScopedSelectors _ _ _

lemma noSlice_rangeArgument (paren : List Char) : NoSlice (rangeArgument paren) := by
  cases paren with
  | nil => exact noSlice_ok _
  | cons c s =>
    simp only [rangeArgument]
    generalize (if (readIdent (skipSpace s)).1 ≠ [] then skipSpace (readIdent (skipSpace s)).2
      else skipSpace s) = i
    split_ifs
    · exact (noSlice_readSelector _).bind fun _ _ => noSlice_ok _
    · exact noSlice_ok _
    · exact noSlice_ok _

lemma extraArguments_eq_slice {afterSel behind : List Char} :
    extraArguments afterSel behind = .error .slice ↔ afterSel.length < behind.length + 1 := by
  unfold extraArguments
  split_ifs with hlt <;> simp [hlt]

lemma rewriteRangeFuncCall_eq_slice {ident : List Char} :
    rewriteRangeFuncCall isPrint ids ident paren = .error .slice ↔ ClosesCall ids paren := by
  constructor
  · intro h
    unfold rewriteRangeFuncCall at h
    rcases bind_eq_error.mp h with h | ⟨arg, harg, h⟩
    · exact absurd h (noSlice_rangeArgument paren)
    cases arg with
    | none => cases h
    | some arg =>
      obtain ⟨metric, inner, afterSel⟩ := arg
      rcases bind_eq_error.mp h with h | ⟨⟨parts, after⟩, hparts, h⟩
      · exact absurd h (noSlice_scopedSelectorParts _ _ _)
      rcases bind_eq_error.mp h with h | ⟨⟨text, behind⟩, hparen, h⟩
      · exact absurd h (noSlice_skipNested _ _ _ _ _)
      rcases bind_eq_error.mp h with h | ⟨extra, _, h⟩
      · obtain ⟨hreject, hids, rangeStr, hrange⟩ := (exists_scopedSelectorParts_iff).mp ⟨parts, hparts⟩
        have hafter := (readRange_suffix hrange).trans (rangeArgument_suffix harg)
        refine ⟨metric, inner, afterSel, rangeStr, after, harg, hreject, hids, hrange, ?_⟩
        exact (skipParen_between_iff hafter hparen).mpr (extraArguments_eq_slice.mp h)
      · simp only at h
        split_ifs at h
  · rintro ⟨metric, inner, afterSel, rangeStr, after, harg, hreject, hids, hrange, ⟨text, mid⟩, hpre⟩
    obtain ⟨parts, hparts⟩ := (@exists_scopedSelectorParts_iff isPrint ids metric _ _ _).mpr
      ⟨hreject, hids, rangeStr, hrange⟩
    have hafter := (readRange_suffix hrange).trans (rangeArgument_suffix harg)
    have hparen := skipParen_of_between hafter hpre
    have hextra := (extraArguments_eq_slice).mpr
      ((skipParen_between_iff hafter hparen).mp ⟨_, hpre⟩)
    unfold rewriteRangeFuncCall
    rw [bind_eq_error]
    refine .inr ⟨_, harg, bind_eq_error.mpr (.inr ⟨_, hparts, bind_eq_error.mpr (.inr ⟨_, hparen, ?_⟩)⟩)⟩
    exact bind_eq_error.mpr (.inl hextra)

lemma rewriteStep_eq_slice {c : Char} {s : List Char} :
    rewriteStep isPrint ids c s = .error .slice ↔
      ∃ ident next paren, branch c s = .call ident next paren ∧ toLower ident ∈ rangeVectorFuncs ∧
        ClosesCall ids paren := by
  rw [rewriteStep]
  cases hbranch : branch c s with
  | call ident next paren =>
    simp only [Branch.call.injEq]
    by_cases hfunc : toLower ident ∈ rangeVectorFuncs
    · rw [if_pos hfunc, bind_eq_error, rewriteRangeFuncCall_eq_slice]
      constructor
      · rintro (h | ⟨r, _, h⟩)
        · exact ⟨ident, next, paren, ⟨rfl, rfl, rfl⟩, hfunc, h⟩
        · cases r <;> cases h
      · rintro ⟨_, _, _, ⟨rfl, rfl, rfl⟩, _, h⟩
        exact .inl h
    · rw [if_neg hfunc]
      refine iff_of_false (noSlice_ok _) ?_
      rintro ⟨_, _, _, ⟨rfl, rfl, rfl⟩, h, _⟩
      exact hfunc h
  | quoted => exact iff_of_false (noSlice_skipQuoted _) (by simp)
  | number => exact iff_of_false (noSlice_ok _) (by simp)
  | bracket => exact iff_of_false (noSlice_skipNested _ _ _ _ _) (by simp)
  | selector => exact iff_of_false (noSlice_rewriteSelectorAt _ _) (by simp)
  | keyword ident next =>
    refine iff_of_false ?_ (by simp)
    show NoSlice (if isGroupingKeyword (toLower ident) then _ else _)
    split_ifs
    · exact noSlice_ok _
    · exact noSlice_ok _
  | aggregator ident next => exact iff_of_false (noSlice_ok _) (by simp)
  | metricSelector ident brace => exact iff_of_false (noSlice_rewriteSelectorAt _ _) (by simp)
  | metric ident next => exact iff_of_false (noSlice_emitScopedSelectors _ _ _) (by simp)
  | byte d next => exact iff_of_false (noSlice_ok _) (by simp)

/-! ## Whole queries -/

lemma rewriteLoop_eq_error {n : ℕ} {e : Failure} (hn : q.length ≤ n) :
    rewriteLoop isPrint ids n q = .error e ↔
      ∃ c s, Comes isPrint ids q (c :: s) ∧ rewriteStep isPrint ids c s = .error e := by
  constructor
  · intro h
    induction n generalizing q with
    | zero => cases q <;> exact absurd h (by simp [rewriteLoop])
    | succ n ih =>
      cases q with
      | nil => exact absurd h (by simp [rewriteLoop])
      | cons c s =>
        rcases bind_eq_error.mp h with h | ⟨⟨piece, next⟩, hstep, h⟩
        · exact ⟨c, s, .refl, h⟩
        rcases bind_eq_error.mp h with h | ⟨rest, _, h⟩
        · have hlength := (rewriteStep_advances hstep).suffix.length_le
          rw [length_cons] at hn
          obtain ⟨c', s', hcomes, herror⟩ := ih (by omega) h
          exact ⟨c', s', .head ⟨c, s, piece, rfl, hstep⟩ hcomes, herror⟩
        · cases h
  · rintro ⟨c, s, hcomes, herror⟩
    induction n generalizing q with
    | zero =>
      obtain rfl : q = [] := length_eq_zero_iff.mp (by omega)
      rcases Relation.ReflTransGen.cases_head hcomes with h | ⟨_, ⟨_, _, _, h, _⟩, _⟩
      · cases h
      · cases h
    | succ n ih =>
      rcases Relation.ReflTransGen.cases_head hcomes with rfl | ⟨next, ⟨c', s', piece, rfl, hstep⟩, h⟩
      · exact bind_eq_error.mpr (.inl herror)
      · have hlength := (rewriteStep_advances hstep).suffix.length_le
        rw [length_cons] at hn
        exact bind_eq_error.mpr (.inr ⟨_, hstep, bind_eq_error.mpr (.inl (ih (by omega) h))⟩)

lemma comes_suffix (h : Comes isPrint ids q p) : p <:+ q := by
  induction h with
  | refl => exact suffix_rfl
  | tail _ hgoes ih =>
    obtain ⟨c, s, piece, rfl, hstep⟩ := hgoes
    exact ((rewriteStep_advances hstep).suffix.trans (suffix_cons _ _)).trans ih

lemma inRange_extraSlices {metric inner afterSel : List Char} (hparen : paren <:+ q)
    (harg : rangeArgument paren = .ok (some (metric, inner, afterSel)))
    (hopen : ¬ClosesCall ids paren) (hx : x ∈ extraSlices isPrint ids paren metric inner afterSel) :
    x.InRange q := by
  unfold extraSlices at hx
  split at hx
  · rename_i parts after text behind hparts hskip
    obtain rfl := mem_singleton.mp hx
    obtain ⟨hreject, hids, rangeStr, hrange⟩ := (exists_scopedSelectorParts_iff).mp ⟨parts, hparts⟩
    have hafter : after <:+ paren := (readRange_suffix hrange).trans (rangeArgument_suffix harg)
    refine ⟨hafter.trans hparen, ?_⟩
    have hle : behind.length + 1 ≤ after.length := by
      by_contra hlt
      apply hopen
      refine ⟨metric, inner, afterSel, rangeStr, after, harg, hreject, hids, hrange, ?_⟩
      exact (skipParen_between_iff hafter hskip).mpr (by omega)
    have hdrop : paren.drop (paren.length - (behind.length + 1)) <:+ paren := drop_suffix _ _
    have hlength := hafter.length_le
    have hlast : (paren.drop (paren.length - (behind.length + 1))).length ≤ after.length := by
      rw [length_drop]
      omega
    exact suffix_of_suffix_length_le hdrop hafter hlast
  · cases hx

lemma inRange_callSlices (hparen : paren <:+ q) (hopen : ¬ClosesCall ids paren)
    (hx : x ∈ callSlices isPrint ids paren) : x.InRange q := by
  simp only [callSlices, mem_append] at hx
  have hi : skipSpace paren.tail <:+ q :=
    ((skipSpace_suffix _).trans (tail_suffix paren)).trans hparen
  have hj : (if (readIdent (skipSpace paren.tail)).1 ≠ [] then
      skipSpace (readIdent (skipSpace paren.tail)).2 else skipSpace paren.tail) <:+ q := by
    split_ifs
    · exact ((skipSpace_suffix _).trans (readIdent_suffix_self _)).trans hi
    · exact hi
  rcases hx with (hx | hx) | hx
  · split_ifs at hx
    · exact inRange_identSlices hi hx
    · cases hx
  · generalize (if (readIdent (skipSpace paren.tail)).1 ≠ [] then
      skipSpace (readIdent (skipSpace paren.tail)).2 else skipSpace paren.tail) = j at hx hj
    split_ifs at hx
    · exact inRange_selectorSlices hj hx
    · exact inRange_partsSlices hj hx
    · cases hx
  · split at hx
    · rename_i metric inner afterSel harg
      exact inRange_extraSlices hparen harg hopen hx
    · cases hx

lemma inRange_slicesAt {c : Char} {s : List Char} (hpos : c :: s <:+ q)
    (hopen : ∀ ident next paren, branch c s = .call ident next paren →
      toLower ident ∈ rangeVectorFuncs → ¬ClosesCall ids paren)
    (hx : x ∈ slicesAt isPrint ids c s) : x.InRange q := by
  have hnext : (readIdent (c :: s)).2 <:+ q := (readIdent_suffix_self _).trans hpos
  have hspace : skipSpace (readIdent (c :: s)).2 <:+ q := (skipSpace_suffix _).trans hnext
  have hreads := reads_branch c s
  unfold slicesAt at hx
  generalize branch c s = br at hreads hx hopen
  cases hreads with
  | quoted =>
    refine inRange_scanSlices hpos ?_ hx
    intro text next hskip
    unfold skipQuoted at hskip
    split at hskip
    · cases hskip
    · rename_i r hscan
      rw [Except.ok.inj hskip] at hscan
      exact scanUntil_suffix hscan
  | number hnumber =>
    obtain rfl := mem_singleton.mp hx
    obtain ⟨t, ht, _⟩ := exists_number hnumber
    have hsuffix : skipNumber (c :: s) <:+ s := ⟨t, ht.symm⟩
    exact ⟨hpos, hsuffix.trans (suffix_cons _ _)⟩
  | bracket => exact inRange_scanSlices hpos (fun _ _ => skipNested_suffix) hx
  | selector => exact inRange_selectorSlices hpos hx
  | keyword =>
    rcases mem_append.mp hx with hx | hx
    · exact inRange_identSlices hpos hx
    · split_ifs at hx
      · exact inRange_groupingSlices hnext hx
      · cases hx
  | call =>
    rcases mem_append.mp hx with hx | hx
    · exact inRange_identSlices hpos hx
    · split_ifs at hx with hfunc
      · exact inRange_callSlices hspace (hopen _ _ _ rfl hfunc) hx
      · cases hx
  | aggregator =>
    rcases mem_append.mp hx with hx | hx
    · exact inRange_identSlices hpos hx
    · exact inRange_aggModifierSlices hspace hx
  | metricSelector =>
    simp only [mem_append] at hx
    rcases hx with (hx | hx) | hx
    · exact inRange_identSlices hpos hx
    · exact inRange_aggModifierSlices hspace hx
    · exact inRange_selectorSlices hspace hx
  | metric =>
    simp only [mem_append] at hx
    rcases hx with (hx | hx) | hx
    · exact inRange_identSlices hpos hx
    · exact inRange_aggModifierSlices hspace hx
    · exact inRange_partsSlices hnext hx
  | byte => cases hx

lemma slicesInRange_iff : SlicesInRange isPrint ids q ↔ CallsStayOpen isPrint ids q := by
  constructor
  · intro h c s ident next paren hcomes hbranch hfunc hcloses
    apply h.result
    have hstep : rewriteStep isPrint ids c s = .error .slice :=
      (rewriteStep_eq_slice).mpr ⟨ident, next, paren, hbranch, hfunc, hcloses⟩
    exact (rewriteLoop_eq_error (Nat.le_refl _)).mpr ⟨c, s, hcomes, hstep⟩
  · intro h
    constructor
    · intro c s hcomes x hx
      exact inRange_slicesAt (comes_suffix hcomes) (fun _ _ _ hb hf => h _ _ _ _ _ hcomes hb hf) hx
    · intro herror
      obtain ⟨c, s, hcomes, hstep⟩ := (rewriteLoop_eq_error (Nat.le_refl _)).mp herror
      obtain ⟨ident, next, paren, hbranch, hfunc, hcloses⟩ := (rewriteStep_eq_slice).mp hstep
      exact h c s ident next paren hcomes hbranch hfunc hcloses

end

/-- Scoping a query for one WAF or several never slices out of range exactly when no call of a range
function that it comes to is closed by a parenthesis in the selector and range of its first
argument. -/
theorem scopePromQL_slices_inRange_iff (isPrint : ℕ → Bool) (q : List Char) :
    (∀ ns name,
      ((Go.trimSpaceBytes q ≠ [] → ns ≠ [] ∧ name ≠ [] → SlicesInRange isPrint [⟨ns, name⟩] q) ∧
        scopePromQL isPrint q ns name ≠ .error .slice) ↔
      (Go.trimSpaceBytes q ≠ [] → ns ≠ [] ∧ name ≠ [] → CallsStayOpen isPrint [⟨ns, name⟩] q)) ∧
    (∀ ids,
      ((Go.trimSpaceBytes q ≠ [] → ids ≠ [] →
          SlicesInRange isPrint (ids.take maxPromQLUnionWAFs) q) ∧
        scopePromQLToWAFs isPrint q ids ≠ .error .slice) ↔
      (Go.trimSpaceBytes q ≠ [] → ids ≠ [] →
        CallsStayOpen isPrint (ids.take maxPromQLUnionWAFs) q)) := by
  constructor
  · intro ns name
    simp only [slicesInRange_iff, and_iff_left_iff_imp, scopePromQL]
    intro h
    split_ifs with hquery hid
    · exact noSlice_error _
    · exact noSlice_error _
    · exact (slicesInRange_iff.mpr (h hquery (not_or.mp hid))).result
  · intro ids
    simp only [slicesInRange_iff, and_iff_left_iff_imp, scopePromQLToWAFs]
    intro h
    split_ifs with hquery hids
    · exact noSlice_error _
    · exact noSlice_ok _
    · exact (slicesInRange_iff.mpr (h hquery hids)).result

/-- The bracket runs past the parenthesis that closes the call. -/
theorem scopePromQL_rateUnclosed_slice :
    scopePromQL (fun _ => true) "rate(x[)]".toList "a".toList "b".toList = .error .slice := by
  decide +kernel

end KubeWaf.Subresource
