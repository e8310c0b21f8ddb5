import Mathlib.Data.List.Forall2
import Mathlib.Data.List.Induction
import Mathlib.Data.List.TakeWhile

/-!
# Texts made of labelled fragments

`labelled sep eq base ls` is `base` followed by a fragment `sep key eq value` for each label of
`ls`. When neither the base nor a key nor a value has an `eq` in it, each `eq` of the text ends
the key of one label, so that an occurrence of a word in front of an `eq` can be traced to a
label (`exists_label_of_occurrence`) and cut out of the text again (`exists_labelled_of_cut`).
-/

namespace KubeWaf.Lib

open List

variable {α : Type*} (sep eq : α)

/-- The fragment of one label, given as its key and its value. -/
def fragment (l : List α × List α) : List α := sep :: (l.1 ++ eq :: l.2)

/-- A base text and the fragments of some labels. -/
def labelled (base : List α) (ls : List (List α × List α)) : List α :=
  base ++ ls.flatMap (fragment sep eq)

variable {sep eq} {base pre w rest x y : List α} {ls : List (List α × List α)}

lemma labelled_nil : labelled sep eq base [] = base := append_nil _

lemma labelled_cons (l : List α × List α) :
    labelled sep eq base (l :: ls) = (base ++ sep :: l.1) ++ eq :: labelled sep eq l.2 ls := by
  simp [labelled, fragment]

lemma labelled_append (ls₁ ls₂ : List (List α × List α)) :
    labelled sep eq base (ls₁ ++ ls₂) = labelled sep eq (labelled sep eq base ls₁) ls₂ := by
  simp [labelled]

lemma append_labelled (t : List α) :
    t ++ labelled sep eq base ls = labelled sep eq (t ++ base) ls := by
  simp [labelled]

/-! ## Occurrences in front of an `eq` -/

lemma append_cons_eq_cases {z : List α} (hx : eq ∉ x) (h : x ++ eq :: y = z ++ eq :: rest) :
    (z = x ∧ rest = y) ∨ ∃ u, z = x ++ eq :: u ∧ y = u ++ eq :: rest := by
  rcases append_eq_append_iff.mp h with ⟨u, hz, hy⟩ | ⟨u, hx', hrest⟩
  · cases u with
    | nil =>
      rw [append_nil] at hz
      rw [nil_append, List.cons.injEq] at hy
      exact Or.inl ⟨hz, hy.2.symm⟩
    | cons d u =>
      rw [cons_append, List.cons.injEq] at hy
      obtain ⟨rfl, hy⟩ := hy
      exact Or.inr ⟨u, hz, hy⟩
  · cases u with
    | nil =>
      rw [append_nil] at hx'
      rw [nil_append, List.cons.injEq] at hrest
      exact Or.inl ⟨hx'.symm, hrest.2⟩
    | cons d u =>
      -- the second cut would be inside `x`
      rw [cons_append, List.cons.injEq] at hrest
      refine absurd ?_ hx
      rw [hx', hrest.1]
      exact mem_append_right _ mem_cons_self

lemma exists_of_append_cons_eq {a b : List α} (ha : eq ∉ a) (h : a ++ b = pre ++ eq :: y) :
    ∃ u, pre = a ++ u ∧ b = u ++ eq :: y := by
  rcases append_eq_append_iff.mp h with ⟨u, hpre, hb⟩ | ⟨u, ha', hy⟩
  · exact ⟨u, hpre, hb⟩
  · cases u with
    | nil =>
      rw [append_nil] at ha'
      exact ⟨[], by rw [ha', append_nil], hy.symm⟩
    | cons d u =>
      rw [cons_append, List.cons.injEq] at hy
      refine absurd ?_ ha
      rw [ha', hy.1]
      exact mem_append_right _ mem_cons_self

lemma exists_of_append_eq (hw : eq ∉ w) (h : pre ++ w = x ++ eq :: y) :
    ∃ u, pre = x ++ eq :: u ∧ y = u ++ w := by
  rcases append_eq_append_iff.mp h with ⟨u, hx, hw'⟩ | ⟨u, hpre, hy⟩
  · refine absurd ?_ hw
    rw [hw']
    exact mem_append_right _ mem_cons_self
  · cases u with
    | nil =>
      refine absurd ?_ hw
      rw [nil_append] at hy
      rw [← hy]
      exact mem_cons_self
    | cons d u =>
      rw [cons_append, List.cons.injEq] at hy
      rw [← hy.1] at hpre
      exact ⟨u, hpre, hy.2⟩

lemma exists_label_of_occurrence (hsep : eq ≠ sep) (hbase : eq ∉ base)
    (hls : ∀ l ∈ ls, eq ∉ l.1 ∧ eq ∉ l.2) (hw : eq ∉ w)
    (h : labelled sep eq base ls = pre ++ (w ++ eq :: rest)) :
    ∃ ls₁ l ls₂, ls = ls₁ ++ l :: ls₂ ∧ rest = labelled sep eq l.2 ls₂
      ∧ pre ++ w = labelled sep eq base ls₁ ++ sep :: l.1 := by
  induction ls generalizing base pre with
  | nil =>
    rw [labelled_nil] at h
    refine absurd ?_ hbase
    rw [h]
    exact mem_append_right _ (mem_append_right _ mem_cons_self)
  | cons l ls ih =>
    obtain ⟨hkey, hvalue⟩ := hls l mem_cons_self
    have hhead : eq ∉ base ++ sep :: l.1 := by
      simp only [mem_append, mem_cons, not_or]
      exact ⟨hbase, hsep, hkey⟩
    rw [labelled_cons, ← append_assoc] at h
    rcases append_cons_eq_cases hhead h with ⟨hw', hrest⟩ | ⟨u, hw', hrest⟩
    · exact ⟨[], l, ls, rfl, hrest, by rw [hw', labelled_nil]⟩
    · -- the occurrence is behind the first `eq`, in the text that starts with the value
      obtain ⟨u', hpre, rfl⟩ := exists_of_append_eq hw hw'
      rw [append_assoc] at hrest
      obtain ⟨ls₁, l', ls₂, rfl, hrest', hend⟩ :=
        ih hvalue (fun l' hl' => hls l' (mem_cons_of_mem _ hl')) hrest
      refine ⟨l :: ls₁, l', ls₂, rfl, hrest', ?_⟩
      calc pre ++ w = (base ++ sep :: l.1) ++ eq :: (u' ++ w) := by
            rw [hpre, append_assoc, cons_append]
        _ = labelled sep eq base (l :: ls₁) ++ sep :: l'.1 := by
            rw [hend, labelled_cons]
            simp

/-! ## Runs of values -/

section
variable {p : α → Bool}

lemma takeWhile_append_of_head {u t : List α} (ht : ∀ c ∈ t.head?, p c = false) :
    (u ++ t).takeWhile p = u.takeWhile p := by
  induction u with
  | nil =>
    cases t with
    | nil => rfl
    | cons c t => rw [nil_append, takeWhile_cons_of_neg (by simp [ht c rfl])]; rfl
  | cons d u ih =>
    rw [cons_append, takeWhile_cons, takeWhile_cons, ih]

lemma head_dropWhile_false (t : List α) : ∀ c ∈ (t.dropWhile p).head?, p c = false := by
  intro c hc
  have hne : t.dropWhile p ≠ [] := by
    intro h
    rw [h] at hc
    exact absurd hc (Option.not_mem_none c)
  have h := head_dropWhile_not p hne
  rw [head?_eq_some_head hne, Option.mem_some_iff] at hc
  rw [← hc]
  exact h

variable (hp : p sep = false)
include hp

lemma head_fragments_false (ls : List (List α × List α)) :
    ∀ c ∈ (ls.flatMap (fragment sep eq)).head?, p c = false := by
  intro c hc
  cases ls with
  | nil => exact absurd hc (Option.not_mem_none c)
  | cons l ls =>
    have hsep : sep = c := Option.some.inj hc
    rw [← hsep]
    exact hp

lemma takeWhile_labelled : (labelled sep eq base ls).takeWhile p = base.takeWhile p :=
  takeWhile_append_of_head (head_fragments_false hp ls)

lemma dropWhile_labelled :
    (labelled sep eq base ls).dropWhile p = labelled sep eq (base.dropWhile p) ls := by
  have htake : (labelled sep eq base ls).takeWhile p = base.takeWhile p := takeWhile_labelled hp
  have hsplit : base.takeWhile p ++ (labelled sep eq base ls).dropWhile p
      = base.takeWhile p ++ labelled sep eq (base.dropWhile p) ls := by
    rw [append_labelled, takeWhile_append_dropWhile, ← htake, takeWhile_append_dropWhile]
  exact append_cancel_left hsplit

lemma exists_labelled_of_cut {ls₁ ls₂ : List (List α × List α)} {v : List α} (hbase : eq ∉ base)
    (hls : ∀ l ∈ ls₁ ++ ls₂, eq ∉ l.2) (hv : eq ∉ v) (hx : eq ∉ x)
    (hhead : ∀ c ∈ x.head?, c = sep) (h : pre ++ x = labelled sep eq base ls₁) :
    ∃ base' ls', pre ++ (labelled sep eq v ls₂).dropWhile p = labelled sep eq base' ls'
      ∧ eq ∉ base'
      ∧ List.Forall₂ (fun l l' => l.1 = l'.1 ∧ eq ∉ l'.2 ∧ l.2.takeWhile p = l'.2.takeWhile p)
          (ls₁ ++ ls₂) ls' := by
  have hv' : eq ∉ v.dropWhile p := fun hmem => hv ((dropWhile_sublist p).subset hmem)
  have hsame : ∀ ls : List (List α × List α), (∀ l ∈ ls, eq ∉ l.2) →
      List.Forall₂ (fun l l' => l.1 = l'.1 ∧ eq ∉ l'.2 ∧ l.2.takeWhile p = l'.2.takeWhile p)
        ls ls := by
    intro ls hls
    exact forall₂_same.mpr fun l hl => ⟨rfl, hls l hl, rfl⟩
  rw [dropWhile_labelled hp]
  cases ls₁ using List.reverseRecOn with
  | nil =>
    -- the occurrence starts in the base
    rw [labelled_nil] at h
    refine ⟨pre ++ v.dropWhile p, ls₂, append_labelled _, ?_, hsame _ hls⟩
    rw [← h] at hbase
    simp only [mem_append, not_or] at hbase ⊢
    exact ⟨hbase.1, hv'⟩
  | append_singleton ls₁ l _ =>
    -- it starts in the value of the label before it
    rw [labelled_append, labelled_cons, labelled_nil] at h
    obtain ⟨u, hpre, hl⟩ := exists_of_append_eq hx h
    refine ⟨base, ls₁ ++ (l.1, u ++ v.dropWhile p) :: ls₂, ?_, hbase, ?_⟩
    · rw [hpre, labelled_append, labelled_cons, ← append_labelled, append_assoc]
      rfl
    · have hlv : eq ∉ l.2 := hls l (by simp)
      rw [hl] at hlv
      simp only [mem_append, not_or] at hlv
      have hrun : l.2.takeWhile p = (u ++ v.dropWhile p).takeWhile p := by
        rw [hl, takeWhile_append_of_head (head_dropWhile_false v), takeWhile_append_of_head]
        intro c hc
        rw [hhead c hc]
        exact hp
      rw [append_assoc]
      have hls₁ : ∀ l' ∈ ls₁, eq ∉ l'.2 := fun l' hl' =>
        hls l' (mem_append_left _ (mem_append_left _ hl'))
      have hls₂ : ∀ l' ∈ ls₂, eq ∉ l'.2 := fun l' hl' => hls l' (mem_append_right _ hl')
      refine rel_append (hsame _ hls₁) (List.Forall₂.cons ⟨rfl, ?_, hrun⟩ (hsame _ hls₂))
      simp only [mem_append, not_or]
      exact ⟨hlv.1, hv'⟩

end

end KubeWaf.Lib
