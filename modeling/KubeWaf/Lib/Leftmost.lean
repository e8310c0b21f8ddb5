import Mathlib.Data.List.TakeWhile

/-!
# Leftmost matches

An expression is a function that is tried at one position of a text: it gives what it captures
and what follows the match, or nothing. `leftmost` finds the first position where it matches.
-/

namespace KubeWaf.Lib

open List

variable {α β : Type*}

/-- What an expression captures at the start of a text, and the text behind the match. -/
abbrev Matcher (α β : Type*) := List α → Option (β × List α)

/-- The first match in a text: what stands before it, what it captures and what follows. -/
def leftmost (m : Matcher α β) : List α → Option (List α × β × List α)
  | [] => (m []).map fun r => ([], r)
  | c :: s =>
    match m (c :: s) with
    | some r => some ([], r)
    | none => (leftmost m s).map fun r => (c :: r.1, r.2)

variable {m : Matcher α β} {s t pre rest : List α} {v : β}

lemma leftmost_of_match (h : m s = some (v, rest)) : leftmost m s = some ([], v, rest) := by
  cases s with
  | nil => rw [leftmost, h, Option.map_some]
  | cons c s => rw [leftmost, h]

lemma leftmost_eq_some (h : leftmost m s = some (pre, v, rest)) :
    ∃ t, s = pre ++ t ∧ m t = some (v, rest) := by
  induction s generalizing pre with
  | nil =>
    obtain ⟨r, hr, heq⟩ := Option.map_eq_some_iff.mp h
    simp only [Prod.mk.injEq] at heq
    obtain ⟨rfl, rfl⟩ := heq
    exact ⟨[], rfl, hr⟩
  | cons c s ih =>
    cases hm : m (c :: s) with
    | some r =>
      rw [leftmost, hm] at h
      simp only [Option.some.injEq, Prod.mk.injEq] at h
      obtain ⟨rfl, rfl⟩ := h
      exact ⟨c :: s, rfl, hm⟩
    | none =>
      rw [leftmost, hm] at h
      obtain ⟨⟨pre', r⟩, hrest, heq⟩ := Option.map_eq_some_iff.mp h
      simp only [Prod.mk.injEq] at heq
      obtain ⟨rfl, rfl⟩ := heq
      obtain ⟨t, ht, hmt⟩ := ih hrest
      exact ⟨t, by rw [ht, cons_append], hmt⟩

lemma exists_leftmost (pre : List α) (h : (m t).isSome) :
    ∃ r, leftmost m (pre ++ t) = some r := by
  induction pre with
  | nil =>
    obtain ⟨⟨v, rest⟩, hr⟩ := Option.isSome_iff_exists.mp h
    exact ⟨_, leftmost_of_match hr⟩
  | cons c pre ih =>
    obtain ⟨r, hr⟩ := ih
    rw [cons_append, leftmost, hr]
    cases m (c :: (pre ++ t)) with
    | some r' => exact ⟨_, rfl⟩
    | none => exact ⟨_, rfl⟩

lemma leftmost_eq_none (h : ∀ pre t, s = pre ++ t → m t = none) : leftmost m s = none := by
  cases hm : leftmost m s with
  | none => rfl
  | some r =>
    obtain ⟨pre, v, rest⟩ := r
    obtain ⟨t, ht, hmt⟩ := leftmost_eq_some hm
    rw [h _ _ ht] at hmt
    exact absurd hmt (Option.some_ne_none _).symm

/-! ## Expressions -/

section
variable [BEq α] [LawfulBEq α]

/-- The text `lit`, then `m`. -/
def literal (lit : List α) (m : Matcher α β) : Matcher α β := fun s =>
  if lit.isPrefixOf s then m (s.drop lit.length) else none

lemma literal_append (lit : List α) (m : Matcher α β) (t : List α) :
    literal lit m (lit ++ t) = m t := by
  have hlit : lit.isPrefixOf (lit ++ t) := isPrefixOf_iff_prefix.mpr (prefix_append _ _)
  rw [literal, if_pos hlit, drop_left]

lemma literal_eq_some {lit : List α} (h : literal lit m s = some (v, rest)) :
    ∃ t, s = lit ++ t ∧ m t = some (v, rest) := by
  rw [literal] at h
  by_cases hlit : lit.isPrefixOf s
  · rw [if_pos hlit] at h
    obtain ⟨t, rfl⟩ := isPrefixOf_iff_prefix.mp hlit
    rw [drop_left] at h
    exact ⟨t, rfl, h⟩
  · rw [if_neg hlit] at h
    exact absurd h (Option.some_ne_none _).symm

/-- The first of `words` that the text starts with. -/
def oneOf (words : List (List α)) : Matcher α (List α) := fun s =>
  (words.find? fun w => w.isPrefixOf s).map fun w => (w, s.drop w.length)

/-- The shortest non-empty text over `p` in front of `stop` or of the end; `stop` belongs to the
match. -/
def lazyRun (p : α → Bool) (stop : α) : Matcher α (List α)
  | [] => none
  | [c] => if p c then some ([c], []) else none
  | c :: d :: s =>
    if p c then
      if d == stop then some ([c], s)
      else (lazyRun p stop (d :: s)).map fun r => (c :: r.1, r.2)
    else none

end

/-- The longest text over `p`, which must not be empty. -/
def run (p : α → Bool) : Matcher α (List α) := fun s =>
  if (s.takeWhile p).isEmpty then none else some (s.takeWhile p, s.dropWhile p)

lemma run_eq_some {p : α → Bool} {v : List α} (h : run p s = some (v, rest)) :
    v = s.takeWhile p ∧ v ≠ [] ∧ rest = s.dropWhile p := by
  rw [run] at h
  by_cases hempty : (s.takeWhile p).isEmpty
  · rw [if_pos hempty] at h
    exact absurd h (Option.some_ne_none _).symm
  · rw [if_neg hempty] at h
    cases h
    exact ⟨rfl, fun hnil => hempty (List.isEmpty_iff.mpr hnil), rfl⟩

lemma run_of_ne_nil {p : α → Bool} (h : s.takeWhile p ≠ []) :
    run p s = some (s.takeWhile p, s.dropWhile p) :=
  if_neg fun hempty => h (List.isEmpty_iff.mp hempty)

end KubeWaf.Lib
