import Mathlib.Data.List.Basic

/-!
# Chains in a list

A list whose elements say whether the next one belongs to them is cut into chains: an element that
asks for more is followed by the rest of its chain.
-/

namespace KubeWaf.Lib

section
variable {β : Type} (more : β → Bool)

/-- A chain: all elements but the last ask for more, and there is a last one. -/
def IsChain : List β → Prop
  | [] => False
  | [x] => more x = false
  | x :: y :: l => more x = true ∧ IsChain (y :: l)

/-- The chains that a list is read as. An element that asks for more at the end of the list is
alone in its chain. -/
def chains : List β → List (List β)
  | [] => []
  | x :: l =>
    if more x then
      match chains l with
      | [] => [[x]]
      | c :: cs => (x :: c) :: cs
    else [x] :: chains l

variable {more} {l r : List β}

lemma IsChain.ne_nil (h : IsChain more l) : l ≠ [] := by
  rintro rfl
  exact h

lemma chains_append (h : IsChain more l) : chains more (l ++ r) = l :: chains more r := by
  induction l with
  | nil => exact absurd h id
  | cons x l ih =>
    cases l with
    | nil =>
      have hx : more x = false := h
      rw [List.singleton_append, chains, hx, if_neg (by decide)]
    | cons y l =>
      rw [List.cons_append, chains, if_pos h.1, ih h.2]

end

end KubeWaf.Lib
