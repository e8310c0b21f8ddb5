import Mathlib.Data.List.Basic

/-!
# Splicing a list in front of a marked element

`spliceBefore p new xs` puts `new` directly in front of the first element of `xs` that satisfies
`p`. Replaying single insertions in front of one marked element lays the new elements down in the
order of the insertions.
-/

namespace KubeWaf.Lib

open List

variable {α : Type*} (p : α → Bool)

/-- `xs` with `new` in front of its first element in `p`; `none` where there is none. -/
def spliceBefore (new : List α) : List α → Option (List α)
  | [] => none
  | x :: xs => if p x then some (new ++ x :: xs) else (spliceBefore new xs).map (x :: ·)

variable {p}

lemma spliceBefore_append (new : List α) {pre : List α} (hpre : ∀ x ∈ pre, p x = false)
    {mark : α} (hmark : p mark = true) (post : List α) :
    spliceBefore p new (pre ++ mark :: post) = some (pre ++ (new ++ mark :: post)) := by
  induction pre with
  | nil => simp [spliceBefore, hmark]
  | cons x pre ih =>
    have hx : p x = false := hpre x mem_cons_self
    have hrest := ih fun y hy => hpre y (mem_cons_of_mem _ hy)
    simp [spliceBefore, hx, hrest]

lemma spliceBefore_eq_some (new : List α) {xs : List α} (h : ∃ x ∈ xs, p x = true) :
    spliceBefore p new xs = some (xs.takeWhile (!p ·) ++ (new ++ xs.dropWhile (!p ·))) := by
  induction xs with
  | nil => simp at h
  | cons x xs ih =>
    cases hx : p x with
    | true => simp [spliceBefore, hx]
    | false =>
      rw [spliceBefore, ih (by simpa [hx] using h)]
      simp [hx]

lemma pair_sublist_append {a b : α} {l₁ l₂ : List α} :
    [a, b].Sublist (l₁ ++ l₂) ↔
      [a, b].Sublist l₁ ∨ (a ∈ l₁ ∧ b ∈ l₂) ∨ [a, b].Sublist l₂ := by
  induction l₁ with
  | nil => simp
  | cons x l₁ ih =>
    rw [cons_append, cons_sublist_cons', ih, cons_sublist_cons',
      singleton_sublist, singleton_sublist, mem_append, mem_cons]
    tauto

lemma perm_of_spliceBefore {new xs ys : List α} (h : spliceBefore p new xs = some ys) :
    ys.Perm (xs ++ new) := by
  induction xs generalizing ys with
  | nil => cases h
  | cons x xs ih =>
    rw [spliceBefore] at h
    split_ifs at h with hx
    · cases h
      exact perm_append_comm
    · obtain ⟨zs, hzs, rfl⟩ := Option.map_eq_some_iff.mp h
      exact (ih hzs).cons x

/-- One insertion of a replay: a list without the mark stays as it is. -/
def insertBefore (p : α → Bool) (xs : List α) (x : α) : List α :=
  (spliceBefore p [x] xs).getD xs

lemma foldl_insertBefore {mark : α} (hmark : p mark = true) (post : List α) (new : List α) :
    ∀ pre : List α, (∀ x ∈ pre, p x = false) → (∀ x ∈ new, p x = false) →
      new.foldl (insertBefore p) (pre ++ mark :: post) = pre ++ (new ++ mark :: post) := by
  induction new with
  | nil => intro pre _ _; rfl
  | cons x new ih =>
    intro pre hpre hnew
    have hx : p x = false := hnew x mem_cons_self
    have hstep : insertBefore p (pre ++ mark :: post) x = (pre ++ [x]) ++ mark :: post := by
      rw [insertBefore, spliceBefore_append [x] hpre hmark post]
      simp
    -- the inserted element joins the part ahead of the mark
    have hpre' : ∀ y ∈ pre ++ [x], p y = false := by
      intro y hy
      rcases mem_append.mp hy with h | h
      · exact hpre y h
      · rw [mem_singleton.mp h]
        exact hx
    rw [foldl_cons, hstep, ih _ hpre' fun y hy => hnew y (mem_cons_of_mem _ hy)]
    simp

end KubeWaf.Lib
