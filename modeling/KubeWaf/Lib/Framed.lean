import KubeWaf.Lib.ExceptLemmas
import KubeWaf.Lib.ReplaceAll
import Mathlib

/-!
# Texts cut at a separator

A separator `q` cuts a text into pieces. `Tightens q s t` says that the pieces of `t` are those of
`s`, each the same or shorter: it is what a replacement leaves that never touches a separator and
always shortens. `framed` is a text that alternates between frames and fills; when a text is
tightened in steps and ends with the frames it had, it had them after every step.
-/

namespace KubeWaf.Lib

open List

variable {α : Type}

lemma forall₂_trans {R : α → α → Prop} (h : ∀ x y z, R x y → R y z → R x z) {l m n : List α}
    (hlm : List.Forall₂ R l m) (hmn : List.Forall₂ R m n) : List.Forall₂ R l n := by
  induction hlm generalizing n with
  | nil => exact hmn
  | cons hxy _ ih =>
    cases hmn with
    | cons hyz hmn => exact .cons (h _ _ _ hxy hyz) (ih hmn)

/-- The same text or a shorter one. -/
def SameOrShorter (s t : List α) : Prop := t = s ∨ t.length < s.length

lemma SameOrShorter.length_le {s t : List α} (h : SameOrShorter s t) : t.length ≤ s.length := by
  obtain rfl | h := h
  · exact le_refl _
  · exact h.le

lemma SameOrShorter.trans {s t u : List α} (hst : SameOrShorter s t) (htu : SameOrShorter t u) :
    SameOrShorter s u := by
  obtain rfl | hlt := hst
  · exact htu
  · exact .inr (lt_of_le_of_lt htu.length_le hlt)

lemma SameOrShorter.antisymm {s t : List α} (hst : SameOrShorter s t)
    (hts : SameOrShorter t s) : t = s := by
  obtain heq | hlt := hst
  · exact heq
  · exact absurd hts.length_le (by omega)

/-- A frame and a fill by turns, each with a separator behind it. -/
def framed (q : α) (segs : List (List α × List α)) (tail : List α) : List α :=
  segs.flatMap (fun seg => seg.1 ++ q :: (seg.2 ++ [q])) ++ tail

lemma framed_nil (q : α) (tail : List α) : framed q [] tail = tail := rfl

lemma framed_append (q : α) (segs segs' : List (List α × List α)) (tail : List α) :
    framed q (segs ++ segs') tail = framed q segs (framed q segs' tail) := by
  rw [framed, flatMap_append, append_assoc]
  rfl

lemma framed_append_tail (q : α) (segs : List (List α × List α)) (s t : List α) :
    framed q segs (s ++ t) = framed q segs s ++ t := (append_assoc _ _ _).symm

lemma framed_cons (q : α) (f x : List α) (segs : List (List α × List α)) (tail : List α) :
    framed q ((f, x) :: segs) tail = f ++ q :: (x ++ q :: framed q segs tail) := by
  simp [framed]

lemma exists_framed_eq (q : α) {segs : List (List α × List α)} (h : segs ≠ []) :
    ∃ s, ∀ tail, framed q segs tail = s ++ q :: tail := by
  obtain rfl | ⟨segs', seg, rfl⟩ := eq_nil_or_concat segs
  · exact absurd rfl h
  · refine ⟨framed q segs' (seg.1 ++ q :: seg.2), fun tail => ?_⟩
    simp [framed]

lemma replaceAll_framed {q : α} {m : Matcher α (List α)} (hm : Shortens m) (hwithin : Within q m)
    (segs : List (List α × List α)) (tail : List α) :
    replaceAll m (framed q segs tail)
      = framed q (segs.map (Prod.map (replaceAll m) (replaceAll m))) (replaceAll m tail) := by
  induction segs with
  | nil => rfl
  | cons seg segs ih =>
    rw [framed_cons, replaceAll_append_cons hm hwithin, replaceAll_append_cons hm hwithin, ih,
      map_cons, Prod.map, framed_cons]

lemma infix_framed_of_mem (q : α) {segs : List (List α × List α)} {seg : List α × List α}
    (h : seg ∈ segs) (tail : List α) : seg.2 <:+: framed q segs tail := by
  obtain ⟨before, behind, rfl⟩ := append_of_mem h
  refine ⟨framed q before (seg.1 ++ [q]), q :: framed q behind tail, ?_⟩
  rw [framed_append, framed_cons, ← framed_append_tail, ← framed_append_tail]
  simp

lemma infix_framed {q : α} {w tail : List α} {segs : List (List α × List α)} (hw : q ∉ w)
    (h : w <:+: framed q segs tail) :
    (∃ seg ∈ segs, w <:+: seg.1 ∨ w <:+: seg.2) ∨ w <:+: tail := by
  induction segs with
  | nil => exact .inr h
  | cons seg segs ih =>
    rw [framed_cons] at h
    obtain hf | h := infix_append_cons hw h
    · exact .inl ⟨seg, mem_cons_self, .inl hf⟩
    obtain hx | h := infix_append_cons hw h
    · exact .inl ⟨seg, mem_cons_self, .inr hx⟩
    obtain ⟨seg', hmem, hseg⟩ | htail := ih h
    · exact .inl ⟨seg', mem_cons_of_mem _ hmem, hseg⟩
    · exact .inr htail

variable [DecidableEq α]

/-! ## Pieces -/

lemma splitOn_append_cons (q : α) (a b : List α) :
    (a ++ q :: b).splitOn q = a.splitOn q ++ b.splitOn q :=
  splitOnP_append_cons a b (beq_self_eq_true q)

lemma splitOn_cons_of_ne {q c : α} (h : c ≠ q) (s : List α) :
    (c :: s).splitOn q = (s.splitOn q).modifyHead (List.cons c) := by
  rw [List.splitOn, splitOnP_cons_eq_if_modifyHead, if_neg (by simpa using h)]
  rfl

lemma splitOn_append_of_notMem {q : α} {u : List α} (hu : q ∉ u) (s : List α) :
    (u ++ s).splitOn q = (s.splitOn q).modifyHead (u ++ ·) := by
  induction u with
  | nil =>
    obtain ⟨h, l, hsplit⟩ := exists_cons_of_ne_nil (splitOn_ne_nil q s)
    rw [nil_append, hsplit, modifyHead_cons, nil_append]
  | cons c u ih =>
    have hc : c ≠ q := fun heq => hu (heq ▸ mem_cons_self)
    rw [cons_append, splitOn_cons_of_ne hc, ih (fun hmem => hu (mem_cons_of_mem _ hmem)),
      modifyHead_modifyHead]
    rfl

lemma notMem_of_mem_splitOn {q : α} {s p : List α} (h : p ∈ s.splitOn q) : q ∉ p := by
  induction s generalizing p with
  | nil =>
    rw [splitOn_nil, mem_singleton] at h
    rw [h]
    exact not_mem_nil
  | cons c s ih =>
    by_cases hc : c = q
    · rw [hc, ← nil_append (q :: s), splitOn_append_cons, splitOn_nil,
        singleton_append, mem_cons] at h
      obtain rfl | h := h
      · exact not_mem_nil
      · exact ih h
    · obtain ⟨d, l, hsplit⟩ := exists_cons_of_ne_nil (splitOn_ne_nil q s)
      rw [splitOn_cons_of_ne hc, hsplit, modifyHead_cons, mem_cons] at h
      rw [hsplit] at ih
      obtain rfl | h := h
      · rw [mem_cons, not_or]
        exact ⟨fun heq => hc heq.symm, ih mem_cons_self⟩
      · exact ih (mem_cons_of_mem _ h)

lemma length_splitOn (q : α) (s : List α) : (s.splitOn q).length = s.count q + 1 := by
  induction s with
  | nil => rw [splitOn_nil, count_nil]; rfl
  | cons c s ih =>
    by_cases hc : c = q
    · rw [hc, ← nil_append (q :: s), splitOn_append_cons, splitOn_nil, length_append,
        ih, nil_append, count_cons_self]
      simp only [length_cons, length_nil]
      omega
    · rw [splitOn_cons_of_ne hc, length_modifyHead, ih, count_cons_of_ne hc]

lemma splitOn_injective (q : α) : Function.Injective (List.splitOn q) := by
  intro s t h
  have hs : [q].intercalate (s.splitOn q) = s := intercalate_splitOn q
  rw [← hs, h, intercalate_splitOn]

lemma append_cons_inj_of_count {q : α} {a a' b b' : List α} (h : a ++ q :: b = a' ++ q :: b')
    (hcount : a.count q = a'.count q) : a = a' ∧ b = b' := by
  have hsplit : a.splitOn q ++ b.splitOn q = a'.splitOn q ++ b'.splitOn q := by
    rw [← splitOn_append_cons, h, splitOn_append_cons]
  have hlen : (a.splitOn q).length = (a'.splitOn q).length := by
    rw [length_splitOn, length_splitOn, hcount]
  obtain ⟨ha, hb⟩ := append_inj hsplit hlen
  exact ⟨splitOn_injective q ha, splitOn_injective q hb⟩

/-! ## Tightening -/

/-- The pieces stay in their places, each the same or shorter. -/
def Tightens (q : α) (s t : List α) : Prop :=
  List.Forall₂ SameOrShorter (s.splitOn q) (t.splitOn q)

section
variable {q : α} {a b s t u v : List α}

lemma Tightens.refl (q : α) (s : List α) : Tightens q s s :=
  forall₂_same.mpr fun _ _ => .inl rfl

lemma Tightens.trans (hst : Tightens q s t) (htu : Tightens q t u) : Tightens q s u :=
  forall₂_trans (R := SameOrShorter) (fun _ _ _ => SameOrShorter.trans) hst htu

lemma Tightens.antisymm (hst : Tightens q s t) (hts : Tightens q t s) : s = t := by
  apply splitOn_injective q
  unfold Tightens at hst hts
  generalize s.splitOn q = l at hst hts
  generalize t.splitOn q = l' at hst hts
  induction hst with
  | nil => rfl
  | cons hxy _ ih =>
    cases hts with
    | cons hyx hts => rw [hxy.antisymm hyx, ih hts]

lemma Tightens.count_eq (h : Tightens q s t) : t.count q = s.count q := by
  have hlen := h.length_eq
  rw [length_splitOn, length_splitOn] at hlen
  omega

lemma length_eq_of_splitOn (q : α) (s : List α) :
    s.length + 1 = ((s.splitOn q).map fun p => p.length + 1).sum := by
  induction s with
  | nil => rw [splitOn_nil]; rfl
  | cons c s ih =>
    by_cases hc : c = q
    · rw [hc, ← nil_append (q :: s), splitOn_append_cons, splitOn_nil, map_append, sum_append, ← ih]
      simp only [nil_append, length_cons, map_cons, map_nil, length_nil, sum_cons, sum_nil]
      omega
    · obtain ⟨h, l, hsplit⟩ := exists_cons_of_ne_nil (splitOn_ne_nil q s)
      rw [hsplit, map_cons, sum_cons] at ih
      rw [splitOn_cons_of_ne hc, hsplit, modifyHead_cons, map_cons, sum_cons,
        length_cons, length_cons]
      omega

lemma Tightens.length_le (h : Tightens q s t) : t.length ≤ s.length := by
  have hs := length_eq_of_splitOn q s
  have ht := length_eq_of_splitOn q t
  have hsum : ∀ l l' : List (List α), List.Forall₂ SameOrShorter l l' →
      (l'.map fun p => p.length + 1).sum ≤ (l.map fun p => p.length + 1).sum := by
    intro l l' hl
    induction hl with
    | nil => exact le_refl _
    | cons hxy _ ih =>
      rw [map_cons, sum_cons, map_cons, sum_cons]
      have := hxy.length_le
      omega
  have := hsum _ _ h
  omega

lemma Tightens.exists_of_append_cons (h : Tightens q (a ++ q :: b) t) :
    ∃ a' b', t = a' ++ q :: b' ∧ Tightens q a a' ∧ Tightens q b b' := by
  unfold Tightens at h
  rw [splitOn_append_cons] at h
  obtain ⟨l, l', hsplit, ha, hb⟩ := exists_append_of_forall₂ h
  have hl : l ≠ [] := fun hnil =>
    splitOn_ne_nil q a (forall₂_nil_right_iff.mp (hnil ▸ ha))
  have hl' : l' ≠ [] := fun hnil =>
    splitOn_ne_nil q b (forall₂_nil_right_iff.mp (hnil ▸ hb))
  have hfree : ∀ p ∈ l ++ l', q ∉ p := fun p hp => notMem_of_mem_splitOn (hsplit ▸ hp)
  have hal : ([q].intercalate l).splitOn q = l :=
    splitOn_intercalate q (fun p hp => hfree p (mem_append_left _ hp)) hl
  have hbl : ([q].intercalate l').splitOn q = l' :=
    splitOn_intercalate q (fun p hp => hfree p (mem_append_right _ hp)) hl'
  refine ⟨[q].intercalate l, [q].intercalate l', ?_, ?_, ?_⟩
  · apply splitOn_injective q
    rw [splitOn_append_cons, hal, hbl, hsplit]
  · rwa [Tightens, hal]
  · rwa [Tightens, hbl]

lemma tightens_append_cons_iff {a' b' : List α} (hcount : a'.count q = a.count q) :
    Tightens q (a ++ q :: b) (a' ++ q :: b') ↔ Tightens q a a' ∧ Tightens q b b' := by
  constructor
  · intro h
    obtain ⟨a₁, b₁, ht, ha, hb⟩ := h.exists_of_append_cons
    obtain ⟨rfl, rfl⟩ := append_cons_inj_of_count ht (hcount.trans ha.count_eq.symm)
    exact ⟨ha, hb⟩
  · intro ⟨ha, hb⟩
    unfold Tightens
    rw [splitOn_append_cons, splitOn_append_cons]
    exact rel_append ha hb

/-! ## Replacements that tighten -/

/-- With `v` in the place of `u`, a text is tightened whenever what follows is. -/
def Squeezes (q : α) (u v : List α) : Prop :=
  ∀ s t, Tightens q s t → Tightens q (u ++ s) (v ++ t)

lemma squeezes_of_notMem (hu : q ∉ u) (hv : q ∉ v) (h : SameOrShorter u v) : Squeezes q u v := by
  intro s t hst
  unfold Tightens at hst ⊢
  rw [splitOn_append_of_notMem hu, splitOn_append_of_notMem hv]
  generalize s.splitOn q = l at hst ⊢
  generalize t.splitOn q = l' at hst ⊢
  cases hst with
  | nil => exact .nil
  | cons hxy hst =>
    refine .cons ?_ hst
    have hlen := hxy.length_le
    obtain rfl | hlt := h
    · obtain rfl | hlt := hxy
      · exact .inl rfl
      · exact .inr (by rw [length_append, length_append]; omega)
    · exact .inr (by rw [length_append, length_append]; omega)

lemma Squeezes.append {u' v' : List α} (h : Squeezes q u v) (h' : Squeezes q u' v') :
    Squeezes q (u ++ u') (v ++ v') := by
  intro s t hst
  rw [append_assoc, append_assoc]
  exact h _ _ (h' _ _ hst)

lemma Squeezes.refl (q : α) (u : List α) : Squeezes q u u := by
  induction u with
  | nil => exact fun _ _ hst => hst
  | cons c u ih =>
    refine Squeezes.append (u := [c]) (v := [c]) ?_ ih
    by_cases hc : c = q
    · intro s t hst
      rw [hc]
      exact (tightens_append_cons_iff (a := []) (b := s) rfl).mpr ⟨Tightens.refl q [], hst⟩
    · have hq : q ∉ [c] := fun hmem => hc (mem_singleton.mp hmem).symm
      exact squeezes_of_notMem hq hq (.inl rfl)

/-- Each match is squeezed to a shorter text. -/
def Tightening (q : α) (m : Matcher α (List α)) : Prop :=
  ∀ s v rest, m s = some (v, rest) → ∃ u, s = u ++ rest ∧ v.length < u.length ∧ Squeezes q u v

variable {m : Matcher α (List α)}

lemma Tightening.shortens (h : Tightening q m) : Shortens m := fun s v rest hm => by
  obtain ⟨u, hs, hlt, _⟩ := h s v rest hm
  exact ⟨u, hs, hlt⟩

lemma Tightening.tightens (h : Tightening q m) (s : List α) : Tightens q s (replaceAll m s) := by
  induction s using replaceAllInduction h.shortens with
  | nil => exact Tightens.refl q []
  | skip c s hc ih =>
    rw [replaceAll_cons_of_none hc]
    exact Squeezes.refl q [c] _ _ ih
  | hit u v rest hne hlt hc ih =>
    rw [replaceAll_of_some hne hc]
    obtain ⟨u', hu, _, hsqueeze⟩ := h _ _ _ hc
    rw [append_cancel_right hu]
    exact hsqueeze _ _ ih

end

/-! ## Frames and fills -/

/-- The frame of a segment, and the number of separators in its fill: with these known, a text
can be cut into its segments in one way only. -/
def shape (q : α) (seg : List α × List α) : List α × ℕ := (seg.1, seg.2.count q)

/-- The text has the frames `fs` and ends with `tail`. -/
def Framed (q : α) (fs : List (List α × ℕ)) (tail t : List α) : Prop :=
  ∃ segs, segs.map (shape q) = fs ∧ t = framed q segs tail

section
variable {q : α} {tail s t u f x : List α} {n : ℕ} {fs : List (List α × ℕ)}
  {segs segs' : List (List α × List α)} {m : Matcher α (List α)}

lemma framed_nil_iff : Framed q [] tail t ↔ t = tail := by
  constructor
  · intro ⟨segs, hmap, ht⟩
    rw [map_eq_nil_iff] at hmap
    rw [ht, hmap, framed_nil]
  · intro ht
    exact ⟨[], rfl, ht⟩

lemma framed_cons_iff : Framed q ((f, n) :: fs) tail t ↔
    ∃ x t', x.count q = n ∧ Framed q fs tail t' ∧ t = f ++ q :: (x ++ q :: t') := by
  constructor
  · intro ⟨segs, hmap, ht⟩
    obtain ⟨⟨f', x⟩, segs', rfl, hseg, hfs⟩ := map_eq_cons_iff.mp hmap
    obtain ⟨rfl, hcount⟩ := Prod.mk.inj hseg
    exact ⟨x, _, hcount, ⟨segs', hfs, rfl⟩, ht.trans (framed_cons q f' x segs' tail)⟩
  · intro ⟨x, t', hcount, ⟨segs, hmap, ht'⟩, ht⟩
    refine ⟨(f, x) :: segs, ?_, ?_⟩
    · rw [map_cons, hmap, shape, hcount]
    · rw [framed_cons, ht, ht']

lemma Framed.of_tightens (hs : Framed q fs tail s) (hst : Tightens q s t)
    (htu : Tightens q t u) (hu : Framed q fs tail u) : Framed q fs tail t := by
  induction fs generalizing s t u with
  | nil =>
    rw [framed_nil_iff] at hs hu ⊢
    rw [hs] at hst
    rw [hu] at htu
    exact (hst.antisymm htu).symm
  | cons fn fs ih =>
    obtain ⟨f, n⟩ := fn
    obtain ⟨x, s', hx, hs', rfl⟩ := framed_cons_iff.mp hs
    obtain ⟨y, u', hy, hu', rfl⟩ := framed_cons_iff.mp hu
    obtain ⟨f₁, t₁, rfl, hf₁, ht₁⟩ := hst.exists_of_append_cons
    obtain ⟨x₁, t', rfl, hx₁, ht'⟩ := ht₁.exists_of_append_cons
    obtain ⟨hf, hrest⟩ := (tightens_append_cons_iff hf₁.count_eq.symm).mp htu
    have hcount : y.count q = x₁.count q := by rw [hx₁.count_eq, hy, hx]
    obtain ⟨_, htu'⟩ := (tightens_append_cons_iff hcount).mp hrest
    rw [framed_cons_iff, ← hf₁.antisymm hf]
    exact ⟨x₁, t', hx₁.count_eq.trans hx, ih hs' ht' htu' hu', rfl⟩

lemma framed_replaceAll_iff (hm : Tightening q m) (hwithin : Within q m)
    (htail : NoMatch m tail []) (hs : Framed q fs tail s) :
    Framed q fs tail (replaceAll m s) ↔ ∀ f ∈ fs, NoMatch m f.1 [] := by
  induction fs generalizing s with
  | nil =>
    rw [framed_nil_iff] at hs
    rw [hs, framed_nil_iff, replaceAll_eq_self htail]
    exact ⟨fun _ f hf => absurd hf not_mem_nil, fun _ => rfl⟩
  | cons fn fs ih =>
    obtain ⟨f, n⟩ := fn
    obtain ⟨x, s', hx, hs', rfl⟩ := framed_cons_iff.mp hs
    have hrx : (replaceAll m x).count q = n := (hm.tightens x).count_eq.trans hx
    rw [forall_mem_cons, ← ih hs', ← replaceAll_eq_self_iff hm.shortens,
      replaceAll_append_cons hm.shortens hwithin, replaceAll_append_cons hm.shortens hwithin,
      framed_cons_iff]
    constructor
    · intro ⟨y, t', hy, ht', heq⟩
      obtain ⟨hf, hrest⟩ := append_cons_inj_of_count heq (hm.tightens f).count_eq
      obtain ⟨_, rfl⟩ := append_cons_inj_of_count hrest (hrx.trans hy.symm)
      exact ⟨hf, ht'⟩
    · intro ⟨hf, ht'⟩
      exact ⟨_, _, hrx, ht', by rw [hf]⟩

lemma count_framed (q : α) (segs : List (List α × List α)) (tail : List α) :
    (framed q segs tail).count q
      = ((segs.map (shape q)).map fun f => f.1.count q + f.2 + 2).sum + tail.count q := by
  induction segs with
  | nil => rw [framed_nil, map_nil, map_nil, sum_nil, Nat.zero_add]
  | cons seg segs ih =>
    rw [framed_cons, count_append, count_cons_self, count_append,
      count_cons_self, ih, map_cons, map_cons, sum_cons]
    simp only [shape]
    omega

lemma Framed.exists_of_append {fs' : List (List α × ℕ)} (h : Framed q (fs ++ fs') tail t) :
    ∃ segs t', segs.map (shape q) = fs ∧ Framed q fs' tail t' ∧ t = framed q segs t' := by
  obtain ⟨segs, hmap, ht⟩ := h
  obtain ⟨segs₁, segs₂, rfl, h₁, h₂⟩ := map_eq_append_iff.mp hmap
  exact ⟨segs₁, _, h₁, ⟨segs₂, h₂, rfl⟩, ht.trans (framed_append q segs₁ segs₂ tail)⟩

lemma Framed.of_tail {tail' : List α} (hfs : fs ≠ []) (hq : q ∉ tail) (hq' : q ∉ tail')
    (h : Framed q fs tail (s ++ q :: tail')) (u : List α) : Framed q fs u (s ++ q :: u) := by
  obtain ⟨segs, hmap, ht⟩ := h
  have hne : segs ≠ [] := by
    intro hnil
    rw [hnil] at hmap
    exact hfs hmap.symm
  obtain ⟨s', hlast⟩ := exists_framed_eq q hne
  rw [hlast] at ht
  have hcount : s.count q = s'.count q := by
    have hall := congrArg (List.count q) ht
    rw [count_append, count_cons_self, count_append, count_cons_self,
      count_eq_zero.mpr hq, count_eq_zero.mpr hq'] at hall
    omega
  refine ⟨segs, hmap, ?_⟩
  rw [hlast, (append_cons_inj_of_count ht hcount).1]

lemma framed_inj {tail' : List α}
    (hcount : segs.map (fun seg => (seg.1.count q, seg.2.count q))
      = segs'.map (fun seg => (seg.1.count q, seg.2.count q)))
    (h : framed q segs tail = framed q segs' tail') : segs = segs' ∧ tail = tail' := by
  induction segs generalizing segs' with
  | nil =>
    rw [map_nil, eq_comm, map_eq_nil_iff] at hcount
    rw [hcount] at h ⊢
    exact ⟨rfl, h⟩
  | cons seg segs ih =>
    obtain ⟨seg', segs'', rfl, hseg, hrest⟩ := map_eq_cons_iff.mp hcount.symm
    obtain ⟨hf, hx⟩ := Prod.mk.inj hseg
    rw [framed_cons, framed_cons] at h
    obtain ⟨hf', h⟩ := append_cons_inj_of_count h hf.symm
    obtain ⟨hx', h⟩ := append_cons_inj_of_count h hx.symm
    obtain ⟨rfl, rfl⟩ := ih hrest.symm h
    exact ⟨by rw [Prod.ext hf' hx'], rfl⟩

end

end KubeWaf.Lib
