import Mathlib.Data.List.Sort

/-!
# Stable sorting by a rank

When a stable sort gives one and the same list for every arrangement of its input: when that
list strictly ascends.
-/

namespace KubeWaf.Lib

open List

section
variable {α κ : Type} [LinearOrder κ] {rank : α → κ} {r : α → α → Prop} [DecidableRel r]
  {l l' : List α}

lemma not_pair_sublist_swap (hl : l.Nodup) {a b : α} (hab : [a, b].Sublist l) :
    ¬ [b, a].Sublist l := by
  intro hba
  have heq : [a, b] = [b, a] := (hl.perm_iff_eq_of_sublist hab hba).mp (List.Perm.swap b a [])
  have hne : a ≠ b := rel_of_pairwise_cons (hl.sublist hab) mem_cons_self
  exact hne (List.cons.inj heq).1

omit [LinearOrder κ] [DecidableRel r] in
lemma map_eq_of_map_rank_eq {β : Type} {f : α → β} (h : l'.map rank = l.map rank)
    (hf : ∀ a ∈ l', ∀ b ∈ l, rank a = rank b → f a = f b) : l'.map f = l.map f := by
  induction l generalizing l' with
  | nil => rw [map_eq_nil_iff.mp h]
  | cons b l ih =>
    obtain ⟨a, l', rfl, hab, hrest⟩ := map_eq_cons_iff.mp h
    rw [map_cons, map_cons, hf a mem_cons_self b mem_cons_self hab,
      ih hrest fun a ha b hb => hf a (mem_cons_of_mem _ ha) b (mem_cons_of_mem _ hb)]

variable (hr : ∀ a b, r a b ↔ rank a ≤ rank b)
include hr

lemma pairwise_insertionSort_rank (l : List α) :
    (l.insertionSort r).Pairwise fun a b => rank a ≤ rank b := by
  have : Std.Total r := ⟨fun a b => by
    rw [hr, hr]
    exact le_total (rank a) (rank b)⟩
  have : IsTrans α r := ⟨fun a b c hab hbc => by
    rw [hr] at hab hbc ⊢
    exact hab.trans hbc⟩
  exact (pairwise_insertionSort r l).imp fun {a b} => (hr a b).mp

lemma insertionSort_eq_of_perm (hlt : l.Pairwise fun a b => rank a < rank b) (hperm : l'.Perm l) :
    l'.insertionSort r = l := by
  have hle : l.Pairwise fun a b => rank a ≤ rank b := hlt.imp le_of_lt
  have hsorted := (perm_insertionSort r l').trans hperm
  refine List.Perm.eq_of_pairwise (fun a b ha hb hab hba => ?_)
    (pairwise_insertionSort_rank hr l') hle hsorted
  -- elements of one rank are one element
  by_contra hne
  have hmem := hsorted.mem_iff.mp ha
  have hstrict : rank a < rank b ∨ rank b < rank a :=
    List.Pairwise.forall_of_forall_of_flip (R := fun a b => a ≠ b → rank a < rank b ∨ rank b < rank a)
      (fun x _ hx => absurd rfl hx) (hlt.imp fun h _ => .inl h) (hlt.imp fun h _ => .inr h)
      hmem hb hne
  rcases hstrict with h | h
  · exact absurd hba (not_le.mpr h)
  · exact absurd hab (not_le.mpr h)

lemma pairwise_lt_of_insertionSort_reverse (hl : l.Nodup) (hsort : l.reverse.insertionSort r = l) :
    l.Pairwise fun a b => rank a < rank b := by
  rw [pairwise_iff_forall_sublist]
  intro a b hab
  by_contra hba
  have hrev : [b, a].Sublist l.reverse := by simpa using hab.reverse
  have hkept := pair_sublist_insertionSort ((hr b a).mpr (not_lt.mp hba)) hrev
  rw [hsort] at hkept
  exact not_pair_sublist_swap hl hab hkept

lemma exists_insertionSort_swap {a b : α} (hab : rank a = rank b) (l : List α) :
    ∃ pre post, (a :: b :: l).insertionSort r = pre ++ a :: b :: post ∧
      (b :: a :: l).insertionSort r = pre ++ b :: a :: post := by
  have hsame : ∀ c, r a c ↔ r b c := fun c => by rw [hr, hr, hab]
  have htie : ∀ x y, rank x = rank y → ∀ s : List α, List.orderedInsert r x (List.orderedInsert r y s)
      = (s.takeWhile fun c => ¬ r x c) ++ x :: y :: (s.dropWhile fun c => ¬ r x c) := by
    intro x y hxy s
    induction s with
    | nil =>
      have hrxy : r x y := (hr x y).mpr hxy.le
      rw [orderedInsert_nil, orderedInsert_cons_of_le r [] hrxy]
      rfl
    | cons c s ih =>
      have hxyc : r x c ↔ r y c := by rw [hr, hr, hxy]
      by_cases hc : r x c
      · rw [orderedInsert_cons_of_le r s (hxyc.mp hc),
          orderedInsert_cons_of_le r _ ((hr x y).mpr hxy.le),
          takeWhile_cons_of_neg (by simpa using hc),
          dropWhile_cons_of_neg (by simpa using hc)]
        rfl
      · rw [orderedInsert_of_not_le r s (fun h => hc (hxyc.mpr h)),
          orderedInsert_of_not_le r _ hc, ih,
          takeWhile_cons_of_pos (by simpa using hc),
          dropWhile_cons_of_pos (by simpa using hc)]
        rfl
  have hfun : (fun c => decide (¬ r b c)) = fun c => decide (¬ r a c) := by
    funext c
    rw [decide_eq_decide, hsame]
  refine ⟨_, _, htie a b hab _, ?_⟩
  rw [← hfun]
  exact htie b a hab.symm _

lemma map_insertionSort_eq_of_perm {β : Type} {f : α → β} (hperm : l'.Perm l)
    (hf : ∀ a ∈ l, ∀ b ∈ l, rank a = rank b → f a = f b) :
    (l'.insertionSort r).map f = (l.insertionSort r).map f := by
  have hsorted := pairwise_insertionSort_rank hr
  have hranks : (l'.insertionSort r).map rank = (l.insertionSort r).map rank := by
    refine List.Perm.eq_of_pairwise (fun _ _ _ _ hab hba => le_antisymm hab hba)
      (pairwise_map.mpr (hsorted l')) (pairwise_map.mpr (hsorted l)) ?_
    exact ((perm_insertionSort r l').trans
      (hperm.trans (perm_insertionSort r l).symm)).map rank
  refine map_eq_of_map_rank_eq hranks fun a ha b hb => hf a ?_ b ((mem_insertionSort r).mp hb)
  exact hperm.mem_iff.mp ((mem_insertionSort r).mp ha)

end

end KubeWaf.Lib
