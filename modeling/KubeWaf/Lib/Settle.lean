import Mathlib.Algebra.Order.BigOperators.Group.List
import Mathlib.Algebra.Order.Ring.Nat

/-!
# Resolving keys within a budget

Each of some keys is refused, missing or found with a value. A resolution of all keys fails if one
is refused, if one is missing and that is not to be ignored, or if the values exceed the budget
together. Two ways to resolve a key give the same resolutions exactly when they agree on each key,
where a value that exceeds the budget alone counts as refused.
-/

namespace KubeWaf.Lib

open List

/-- What becomes of one key. -/
inductive Outcome (β : Type) where
  | refused
  | missing
  | found (v : β)
  deriving DecidableEq

namespace Outcome

variable {β : Type}

def isRefused : Outcome β → Bool
  | refused => true
  | _ => false

def isMissing : Outcome β → Bool
  | missing => true
  | _ => false

def value? : Outcome β → Option β
  | found v => some v
  | _ => none

/-- A value that exceeds the budget alone is refused. -/
def within (size : β → ℕ) (budget : ℕ) : Outcome β → Outcome β
  | found v => if budget < size v then refused else found v
  | o => o

end Outcome

section
variable {κ β : Type} (size : β → ℕ) (budget : ℕ) (outcome : κ → Outcome β)

/-- The keys that are found, with their values. -/
def foundValues (keys : List κ) : List (κ × β) :=
  keys.filterMap fun k => (outcome k).value?.map fun v => (k, v)

def missingKeys (keys : List κ) : List κ := keys.filter fun k => (outcome k).isMissing

def totalSize (values : List (κ × β)) : ℕ := (values.map fun kv => size kv.2).sum

/-- The keys are not resolved. -/
def fails (ignoreMissing : Bool) (keys : List κ) : Bool :=
  keys.any (fun k => (outcome k).isRefused)
    || (!ignoreMissing && !(missingKeys outcome keys).isEmpty)
    || decide (budget < totalSize size (foundValues outcome keys))

/-- The values that are found and the keys that are ignored. -/
def settle (ignoreMissing : Bool) (keys : List κ) : Option (List (κ × β) × List κ) :=
  if fails size budget outcome ignoreMissing keys then none
  else some (foundValues outcome keys, missingKeys outcome keys)

end

section
variable {κ β : Type} {size : β → ℕ} {budget : ℕ} {outcome outcome' : κ → Outcome β}
  {ignoreMissing : Bool} {keys : List κ}

lemma settle_congr (h : ∀ k ∈ keys, outcome k = outcome' k) :
    settle size budget outcome ignoreMissing keys
      = settle size budget outcome' ignoreMissing keys := by
  have hrefused : keys.any (fun k => (outcome k).isRefused)
      = keys.any (fun k => (outcome' k).isRefused) := by
    rw [Bool.eq_iff_iff, any_eq_true, any_eq_true]
    exact exists_congr fun k => and_congr_right fun hk => by rw [h k hk]
  have hfound : foundValues outcome keys = foundValues outcome' keys :=
    filterMap_congr fun k hk => by rw [h k hk]
  have hmissing : missingKeys outcome keys = missingKeys outcome' keys :=
    filter_congr fun k hk => by rw [h k hk]
  rw [settle, settle, fails, fails, hrefused, hfound, hmissing]

lemma settle_eq_none {k : κ} (hk : k ∈ keys)
    (h : (outcome k).isRefused = true
      ∨ ignoreMissing = false ∧ (outcome k).isMissing = true) :
    settle size budget outcome ignoreMissing keys = none := by
  have hfails : fails size budget outcome ignoreMissing keys = true := by
    rw [fails, Bool.or_eq_true, Bool.or_eq_true]
    rcases h with hr | ⟨hignore, hm⟩
    · exact Or.inl (Or.inl (any_eq_true.mpr ⟨k, hk, hr⟩))
    · have hmem : k ∈ missingKeys outcome keys := mem_filter.mpr ⟨hk, hm⟩
      refine Or.inl (Or.inr ?_)
      rw [hignore, Bool.not_false, Bool.true_and, Bool.not_eq_true', isEmpty_eq_false_iff]
      exact ne_nil_of_mem hmem
  rw [settle, hfails]
  rfl

lemma settle_eq_ite (hrefused : ∀ k ∈ keys, (outcome k).isRefused = false)
    (hmissing : ignoreMissing = false → ∀ k ∈ keys, (outcome k).isMissing = false) :
    settle size budget outcome ignoreMissing keys
      = if budget < totalSize size (foundValues outcome keys) then none
        else some (foundValues outcome keys, missingKeys outcome keys) := by
  have hany : keys.any (fun k => (outcome k).isRefused) = false := by
    rw [any_eq_false]
    intro k hk
    rw [hrefused k hk]
    exact Bool.false_ne_true
  have hignored : (!ignoreMissing && !(missingKeys outcome keys).isEmpty) = false := by
    cases ignoreMissing with
    | true => rfl
    | false =>
      have hnil : missingKeys outcome keys = [] := by
        rw [missingKeys, filter_eq_nil_iff]
        intro k hk
        rw [hmissing rfl k hk]
        exact Bool.false_ne_true
      rw [hnil]
      rfl
  rw [settle, fails, hany, hignored]
  simp

lemma size_le_totalSize {k : κ} {v : β} (hk : k ∈ keys) (hv : outcome k = .found v) :
    size v ≤ totalSize size (foundValues outcome keys) := by
  have hmem : (k, v) ∈ foundValues outcome keys :=
    mem_filterMap.mpr ⟨k, hk, by rw [hv]; rfl⟩
  exact single_le_sum (fun n _ => Nat.zero_le n) _
    (mem_map.mpr ⟨(k, v), hmem, rfl⟩)

lemma fails_of_within_refused {k : κ} (hk : k ∈ keys)
    (h : (outcome k).within size budget = .refused) :
    fails size budget outcome ignoreMissing keys = true := by
  rw [fails, Bool.or_eq_true, Bool.or_eq_true]
  cases ho : outcome k with
  | refused => exact Or.inl (Or.inl (any_eq_true.mpr ⟨k, hk, by rw [ho]; rfl⟩))
  | missing =>
    rw [ho] at h
    cases h
  | found v =>
    rw [ho, Outcome.within] at h
    by_cases hsize : budget < size v
    · exact Or.inr (decide_eq_true (lt_of_lt_of_le hsize (size_le_totalSize hk ho)))
    · rw [if_neg hsize] at h
      cases h

lemma within_eq_self {o : Outcome β} (h : o.within size budget ≠ .refused) :
    o.within size budget = o := by
  cases o with
  | refused => rfl
  | missing => rfl
  | found v =>
    rw [Outcome.within] at h ⊢
    by_cases hsize : budget < size v
    · exact absurd (if_pos hsize) h
    · exact if_neg hsize

lemma settle_eq_of_within
    (h : ∀ k ∈ keys, (outcome k).within size budget = (outcome' k).within size budget) :
    settle size budget outcome ignoreMissing keys
      = settle size budget outcome' ignoreMissing keys := by
  by_cases hrefused : ∃ k ∈ keys, (outcome k).within size budget = .refused
  · obtain ⟨k, hk, hr⟩ := hrefused
    rw [settle, settle, if_pos (fails_of_within_refused hk hr),
      if_pos (fails_of_within_refused hk (h k hk ▸ hr))]
  · refine settle_congr fun k hk => ?_
    have hne : (outcome k).within size budget ≠ .refused := fun hr => hrefused ⟨k, hk, hr⟩
    rw [← within_eq_self hne, h k hk, within_eq_self (h k hk ▸ hne)]

lemma settle_nil : settle size budget outcome ignoreMissing [] = some ([], []) := by
  simp [settle, fails, foundValues, missingKeys, totalSize]

lemma settle_singleton (k : κ) :
    settle size budget outcome true [k] = match (outcome k).within size budget with
      | .refused => none
      | .missing => some ([], [k])
      | .found v => some ([(k, v)], []) := by
  cases ho : outcome k with
  | refused =>
    have hfails : fails size budget outcome true [k] = true :=
      fails_of_within_refused mem_cons_self (by rw [ho]; rfl)
    rw [settle, if_pos hfails]
    rfl
  | missing =>
    simp [settle, fails, foundValues, missingKeys, totalSize, ho, Outcome.isRefused,
      Outcome.isMissing, Outcome.value?, Outcome.within]
  | found v =>
    by_cases hsize : budget < size v
    · have hfails : fails size budget outcome true [k] = true :=
        fails_of_within_refused mem_cons_self (by rw [ho, Outcome.within, if_pos hsize])
      rw [settle, if_pos hfails, Outcome.within, if_pos hsize]
    · have hfound : foundValues outcome [k] = [(k, v)] := by
        rw [foundValues, filterMap_cons, ho]
        rfl
      have hmissing : missingKeys outcome [k] = [] := by
        rw [missingKeys, filter_cons, ho]
        rfl
      have hok : fails size budget outcome true [k] = false := by
        rw [fails, hfound, hmissing]
        simp [ho, Outcome.isRefused, totalSize, not_lt.mp hsize]
      rw [settle, hok, hfound, hmissing, Outcome.within, if_neg hsize]
      rfl

end

end KubeWaf.Lib
