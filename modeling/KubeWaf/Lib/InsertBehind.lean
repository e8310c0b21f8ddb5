import KubeWaf.Lib.Framed

/-!
# Inserting behind the first field

`cutBehind key e` cuts a text behind the first field that starts with `key`: a field ends ahead of
the next character in `e`. New fields are put there one after the other. A text without a character
in `e` then stands in the old text or in a new field, and the fields of the text are the old ones
and the new ones.
-/

namespace KubeWaf.Lib

open List

variable {α : Type}

/-! ## Fields -/

section
variable (e : α → Bool)

/-- A field ends here: the text is over, or a character in `e` follows. -/
def Ends (v : List α) : Prop := v = [] ∨ ∃ d v', e d = true ∧ v = d :: v'

/-- No character of the text ends a field. -/
def Endless (w : List α) : Prop := ∀ c ∈ w, e c = false

variable {e} {q c : α} {a s t v w rest : List α}

lemma Endless.notMem (h : Endless e w) (hq : e q = true) : q ∉ w := fun hmem => by
  rw [h q hmem] at hq
  cases hq

lemma ends_dropWhile (s : List α) : Ends e (s.dropWhile fun d => !e d) := by
  cases hs : s.dropWhile fun d => !e d with
  | nil => exact .inl rfl
  | cons d v =>
    have hhead := head?_dropWhile_not (fun d => !e d) s
    rw [hs] at hhead
    exact .inr ⟨d, v, by simpa using hhead, rfl⟩

lemma endless_of_mem_splitOnP (h : w ∈ s.splitOnP e) : Endless e w := by
  induction s generalizing w with
  | nil =>
    rw [splitOnP_nil, mem_singleton] at h
    rw [h]
    exact fun c hc => absurd hc not_mem_nil
  | cons c s ih =>
    rw [splitOnP_cons_eq_if_modifyHead] at h
    cases hc : e c with
    | true =>
      rw [if_pos hc, mem_cons] at h
      obtain rfl | h := h
      · exact fun c hc => absurd hc not_mem_nil
      · exact ih h
    | false =>
      obtain ⟨d, l, hsplit⟩ := exists_cons_of_ne_nil (splitOnP_ne_nil e s)
      rw [if_neg (by simp [hc]), hsplit, modifyHead_cons, mem_cons] at h
      rw [hsplit] at ih
      obtain rfl | h := h
      · intro c' hc'
        obtain rfl | hc' := mem_cons.mp hc'
        · exact hc
        · exact ih mem_cons_self c' hc'
      · exact ih (mem_cons_of_mem _ h)

lemma prefix_infix_of_splitOnP {l : List (List α)} (h : s.splitOnP e = t :: l) :
    t <+: s ∧ ∀ w ∈ l, w <:+: s := by
  induction s generalizing t l with
  | nil =>
    rw [splitOnP_nil, List.cons.injEq] at h
    rw [← h.1, ← h.2]
    exact ⟨prefix_refl _, fun w hw => absurd hw not_mem_nil⟩
  | cons c s ih =>
    obtain ⟨t', l', hsplit⟩ := exists_cons_of_ne_nil (splitOnP_ne_nil e s)
    obtain ⟨hpre, hfound⟩ := ih hsplit
    rw [splitOnP_cons_eq_if_modifyHead, hsplit] at h
    have hcons : ∀ w ∈ l', w <:+: c :: s := fun w hw =>
      (hfound w hw).trans (suffix_cons _ _).isInfix
    cases hc : e c with
    | true =>
      rw [if_pos hc, List.cons.injEq] at h
      rw [← h.1, ← h.2, forall_mem_cons]
      exact ⟨List.nil_prefix, hpre.isInfix.trans (suffix_cons _ _).isInfix, hcons⟩
    | false =>
      rw [if_neg (by simp [hc]), modifyHead_cons, List.cons.injEq] at h
      rw [← h.1, ← h.2]
      exact ⟨cons_prefix_cons.mpr ⟨rfl, hpre⟩, hcons⟩

lemma infix_of_mem_splitOnP (h : w ∈ s.splitOnP e) : w <:+: s := by
  obtain ⟨t, l, hsplit⟩ := exists_cons_of_ne_nil (splitOnP_ne_nil e s)
  obtain ⟨hpre, hfound⟩ := prefix_infix_of_splitOnP hsplit
  rw [hsplit] at h
  obtain rfl | h := mem_cons.mp h
  · exact hpre.isInfix
  · exact hfound w h

lemma mem_splitOnP_insert (hc : e c = true) (hrest : Ends e rest) :
    w ∈ (a ++ c :: (t ++ rest)).splitOnP e ↔ w ∈ (a ++ rest).splitOnP e ∨ w ∈ t.splitOnP e := by
  rw [splitOnP_append_cons _ _ hc, mem_append]
  obtain rfl | ⟨d, rest', hd, rfl⟩ := hrest
  · rw [append_nil, append_nil]
  · rw [splitOnP_append_cons _ _ hd, splitOnP_append_cons _ _ hd, mem_append,
      mem_append, or_assoc, or_comm (a := w ∈ t.splitOnP e)]

lemma infix_insert_iff (hw : Endless e w) (hc : e c = true) (hrest : Ends e rest) :
    w <:+: a ++ c :: (t ++ rest) ↔ w <:+: a ++ rest ∨ w <:+: t := by
  have happend : ∀ s, w <:+: s ++ rest ↔ w <:+: s ∨ w <:+: rest := by
    intro s
    constructor
    · intro h
      obtain rfl | ⟨d, rest', hd, rfl⟩ := hrest
      · rw [append_nil] at h
        exact .inl h
      · obtain h | h := infix_append_cons (hw.notMem hd) h
        · exact .inl h
        · exact .inr (h.trans (suffix_cons _ _).isInfix)
    · intro h
      obtain h | h := h
      · exact h.trans (prefix_append _ _).isInfix
      · exact h.trans (suffix_append _ _).isInfix
  have hcons : w <:+: a ++ c :: (t ++ rest) ↔ w <:+: a ∨ w <:+: t ++ rest := by
    constructor
    · exact infix_append_cons (hw.notMem hc)
    · intro h
      obtain h | h := h
      · exact h.trans (prefix_append _ _).isInfix
      · exact h.trans ((suffix_cons _ _).trans (suffix_append _ _)).isInfix
  rw [hcons, happend, happend, or_assoc, or_comm (a := w <:+: t)]

/-- The texts `new` between `a` and `v`, each behind a separator `c`. -/
def withFields (c : α) (a v : List α) (new : List (List α)) : List α :=
  a ++ (new.flatMap (List.cons c) ++ v)

lemma ends_flatMap (hc : e c = true) (hv : Ends e v) (new : List (List α)) :
    Ends e (new.flatMap (List.cons c) ++ v) := by
  cases new with
  | nil => exact hv
  | cons t new => exact .inr ⟨c, _, hc, rfl⟩

lemma withFields_cons (c : α) (a v t : List α) (new : List (List α)) :
    withFields c a v (t :: new) = a ++ c :: (t ++ (new.flatMap (List.cons c) ++ v)) := by
  rw [withFields, flatMap_cons, cons_append, cons_append, append_assoc]

lemma mem_splitOnP_withFields (hc : e c = true) (hv : Ends e v)
    (new : List (List α)) : w ∈ (withFields c a v new).splitOnP e ↔
      w ∈ (a ++ v).splitOnP e ∨ ∃ t ∈ new, w ∈ t.splitOnP e := by
  induction new with
  | nil =>
    simp only [not_mem_nil, false_and, exists_false, or_false]
    rfl
  | cons t new ih =>
    rw [withFields_cons, mem_splitOnP_insert hc (ends_flatMap hc hv new), ← withFields, ih]
    simp only [mem_cons, exists_eq_or_imp]
    rw [or_assoc, or_comm (a := w ∈ t.splitOnP e)]

lemma infix_withFields_iff (hw : Endless e w) (hc : e c = true) (hv : Ends e v)
    (new : List (List α)) : w <:+: withFields c a v new ↔ w <:+: a ++ v ∨ ∃ t ∈ new, w <:+: t := by
  induction new with
  | nil =>
    simp only [not_mem_nil, false_and, exists_false, or_false]
    rfl
  | cons t new ih =>
    rw [withFields_cons, infix_insert_iff hw hc (ends_flatMap hc hv new), ← withFields, ih]
    simp only [mem_cons, exists_eq_or_imp]
    rw [or_assoc, or_comm (a := w <:+: t)]

end

/-! ## The first field with a key -/

variable [DecidableEq α]

/-- The text up to the end of the first field that starts with `key`, and the rest. -/
def cutBehind (key : List α) (e : α → Bool) : List α → Option (List α × List α)
  | [] => none
  | c :: s =>
    if key.isPrefixOf (c :: s) then
      some ((c :: s).takeWhile fun d => !e d, (c :: s).dropWhile fun d => !e d)
    else (cutBehind key e s).map fun r => (c :: r.1, r.2)

variable {key : List α} {e : α → Bool} {q c : α} {a s t v x y y' rest : List α}

lemma cutBehind_eq_some (h : cutBehind key e s = some (a, v)) : s = a ++ v ∧ Ends e v := by
  induction s generalizing a with
  | nil => cases h
  | cons c s ih =>
    rw [cutBehind] at h
    by_cases hkey : key.isPrefixOf (c :: s)
    · rw [if_pos hkey, Option.some.injEq, Prod.mk.injEq] at h
      rw [← h.1, ← h.2, takeWhile_append_dropWhile]
      exact ⟨rfl, ends_dropWhile _⟩
    · rw [if_neg hkey] at h
      obtain ⟨⟨a', v'⟩, hcut, heq⟩ := Option.map_eq_some_iff.mp h
      simp only [Prod.mk.injEq] at heq
      obtain ⟨rfl, rfl⟩ := heq
      obtain ⟨hs, hv⟩ := ih hcut
      rw [hs]
      exact ⟨rfl, hv⟩

lemma cutBehind_eq_none_iff (hkey : key ≠ []) : cutBehind key e s = none ↔ ¬ key <:+: s := by
  induction s with
  | nil =>
    rw [infix_nil]
    exact ⟨fun _ => hkey, fun _ => rfl⟩
  | cons c s ih =>
    rw [cutBehind, infix_cons_iff, not_or, ← ih, ← isPrefixOf_iff_prefix]
    by_cases hpre : key.isPrefixOf (c :: s)
    · rw [if_pos hpre]
      constructor
      · intro h
        cases h
      · intro h
        exact absurd hpre h.1
    · rw [if_neg hpre, Option.map_eq_none_iff]
      exact ⟨fun h => ⟨hpre, h⟩, fun h => h.2⟩

lemma cutBehind_append_cons_of_none (hq : q ∉ key) (hs : ¬ key <:+: s)
    (t : List α) : cutBehind key e (s ++ q :: t)
      = (cutBehind key e t).map fun r => (s ++ q :: r.1, r.2) := by
  have hpre : ∀ v, v <:+ s → ¬ key.isPrefixOf (v ++ q :: t) := by
    intro v hv hpre
    obtain ⟨rest, hrest⟩ := isPrefixOf_iff_prefix.mp hpre
    obtain ⟨v', rfl, _⟩ := exists_of_append_eq_append_cons hq hrest
    exact hs ((prefix_append key v').isInfix.trans hv.isInfix)
  clear hs
  induction s with
  | nil =>
    have hnil := hpre [] (suffix_refl _)
    rw [nil_append] at hnil
    rw [nil_append, cutBehind, if_neg hnil]
    rfl
  | cons c s ih =>
    have hc := hpre (c :: s) (suffix_refl _)
    rw [cons_append] at hc
    rw [cons_append, cutBehind, if_neg hc,
      ih fun v hv => hpre v (hv.trans (suffix_cons _ _)), Option.map_map]
    rfl

lemma cutBehind_append_cons_of_some (hkey : Endless e key) (hq : e q = true)
    (h : cutBehind key e x = some (y, y')) (rest : List α) :
    cutBehind key e (x ++ q :: rest) = some (y, y' ++ q :: rest) := by
  induction x generalizing y with
  | nil => cases h
  | cons c x ih =>
    rw [cutBehind] at h
    rw [cons_append, cutBehind, ← cons_append]
    by_cases hpre : key.isPrefixOf (c :: x)
    · rw [if_pos hpre, Option.some.injEq, Prod.mk.injEq] at h
      have hpre' : key.isPrefixOf ((c :: x) ++ q :: rest) := by
        rw [List.isPrefixOf_iff_prefix] at hpre ⊢
        exact hpre.trans (prefix_append _ _)
      have hstop : (!e q) = false := by rw [hq]; rfl
      rw [if_pos hpre', ← h.1, ← h.2, takeWhile_append_cons_of_neg (p := fun d => !e d) hstop,
        dropWhile_append_cons_of_neg (p := fun d => !e d) hstop]
    · have hpre' : ¬ key.isPrefixOf ((c :: x) ++ q :: rest) := by
        intro hlong
        obtain ⟨r, hr⟩ := isPrefixOf_iff_prefix.mp hlong
        obtain ⟨x', hx', _⟩ := exists_of_append_eq_append_cons (hkey.notMem hq) hr
        exact hpre (List.isPrefixOf_iff_prefix.mpr ⟨x', hx'.symm⟩)
      rw [if_neg hpre] at h
      obtain ⟨⟨z, z'⟩, hcut, heq⟩ := Option.map_eq_some_iff.mp h
      simp only [Prod.mk.injEq] at heq
      obtain ⟨rfl, rfl⟩ := heq
      rw [if_neg hpre', ih hcut, Option.map_some]

lemma cutBehind_cut (hne : key ≠ []) (hkey : Endless e key)
    (h : cutBehind key e s = some (a, v)) : cutBehind key e a = some (a, []) := by
  induction s generalizing a with
  | nil => cases h
  | cons c s ih =>
    rw [cutBehind] at h
    by_cases hpre : key.isPrefixOf (c :: s)
    · rw [if_pos hpre, Option.some.injEq, Prod.mk.injEq] at h
      obtain ⟨r, hr⟩ := isPrefixOf_iff_prefix.mp hpre
      have ha : a = key ++ r.takeWhile fun d => !e d := by
        rw [← h.1, ← hr]
        exact takeWhile_append_of_pos fun d hd => by rw [hkey d hd]; rfl
      have hendless : ∀ d ∈ a, (!e d) = true := by
        rw [← h.1]
        exact fun d hd => mem_takeWhile_imp (p := fun d => !e d) hd
      have hprea : key.isPrefixOf a := isPrefixOf_iff_prefix.mpr ⟨_, ha.symm⟩
      cases a with
      | nil => exact absurd (append_eq_nil_iff.mp ha.symm).1 hne
      | cons d a =>
        rw [cutBehind, if_pos hprea, takeWhile_eq_self_iff.mpr hendless,
          dropWhile_eq_nil_iff.mpr hendless]
    · rw [if_neg hpre] at h
      obtain ⟨⟨a', v'⟩, hcut, heq⟩ := Option.map_eq_some_iff.mp h
      simp only [Prod.mk.injEq] at heq
      obtain ⟨rfl, rfl⟩ := heq
      have hpre' : ¬ key.isPrefixOf (c :: a') := by
        rw [List.isPrefixOf_iff_prefix] at hpre ⊢
        rw [(cutBehind_eq_some hcut).1] at hpre
        exact fun hshort => hpre (hshort.trans ⟨v', rfl⟩)
      rw [cutBehind, if_neg hpre', ih hcut, Option.map_some]

lemma cutBehind_withFields (hne : key ≠ []) (hkey : Endless e key) (hc : e c = true)
    (h : cutBehind key e s = some (a, v)) (new : List (List α)) :
    cutBehind key e (withFields c a v new) = some (a, new.flatMap (List.cons c) ++ v) := by
  cases new with
  | nil =>
    rw [withFields, flatMap_nil, nil_append, ← (cutBehind_eq_some h).1, h]
  | cons t new =>
    rw [withFields, flatMap_cons, cons_append, cons_append]
    exact cutBehind_append_cons_of_some hkey hc (cutBehind_cut hne hkey h) _

lemma cutBehind_framed (hne : key ≠ []) (hkey : Endless e key) (hq : e q = true)
    {segs : List (List α × List α)} {tail : List α}
    (h : cutBehind key e (framed q segs tail) = some (a, v)) :
    (∃ before f g x behind, segs = before ++ (f ++ g, x) :: behind ∧ a = framed q before f ∧
      v = g ++ q :: (x ++ q :: framed q behind tail)) ∨
    (∃ before f x behind y y', segs = before ++ (f, x) :: behind ∧
      ¬ key <:+: framed q before f ∧ cutBehind key e x = some (y, y') ∧
      a = framed q before (f ++ q :: y) ∧ v = y' ++ q :: framed q behind tail) ∨
    (∃ f g, tail = f ++ g ∧ a = framed q segs f ∧ v = g) := by
  have hqkey := hkey.notMem hq
  induction segs generalizing a with
  | nil =>
    rw [framed_nil] at h
    exact .inr (.inr ⟨a, v, (cutBehind_eq_some h).1, rfl, rfl⟩)
  | cons seg segs ih =>
    obtain ⟨f, x⟩ := seg
    rw [framed_cons] at h
    cases hf : cutBehind key e f with
    | some r =>
      obtain ⟨g, g'⟩ := r
      rw [cutBehind_append_cons_of_some hkey hq hf, Option.some.injEq, Prod.mk.injEq] at h
      rw [(cutBehind_eq_some hf).1, ← h.1, ← h.2]
      exact .inl ⟨[], g, g', x, segs, rfl, rfl, rfl⟩
    | none =>
      have hnf := (cutBehind_eq_none_iff hne).mp hf
      rw [cutBehind_append_cons_of_none hqkey hnf] at h
      cases hx : cutBehind key e x with
      | some r =>
        obtain ⟨y, y'⟩ := r
        rw [cutBehind_append_cons_of_some hkey hq hx, Option.map_some, Option.some.injEq,
          Prod.mk.injEq] at h
        rw [← h.1, ← h.2]
        exact .inr (.inl ⟨[], f, x, segs, y, y', rfl, hnf, hx, rfl, rfl⟩)
      | none =>
        have hnx := (cutBehind_eq_none_iff hne).mp hx
        rw [cutBehind_append_cons_of_none hqkey hnx, Option.map_map] at h
        obtain ⟨⟨a', v'⟩, hcut, heq⟩ := Option.map_eq_some_iff.mp h
        simp only [Function.comp_apply, Prod.mk.injEq] at heq
        obtain ⟨rfl, rfl⟩ := heq
        obtain ⟨before, f', g, x', behind, rfl, rfl, hv⟩ |
          ⟨before, f', x', behind, y, y', rfl, hnone, hx', rfl, hv⟩ | ⟨f', g, ht, rfl, hv⟩ := ih hcut
        · exact .inl ⟨(f, x) :: before, f', g, x', behind, rfl, (framed_cons _ _ _ _ _).symm, hv⟩
        · refine .inr (.inl ⟨(f, x) :: before, f', x', behind, y, y', rfl, ?_, hx',
            (framed_cons _ _ _ _ _).symm, hv⟩)
          intro hfound
          rw [framed_cons] at hfound
          obtain hfound | hfound := infix_append_cons hqkey hfound
          · exact hnf hfound
          obtain hfound | hfound := infix_append_cons hqkey hfound
          · exact hnx hfound
          · exact hnone hfound
        · exact .inr (.inr ⟨f', g, ht, (framed_cons _ _ _ _ _).symm, hv⟩)

end KubeWaf.Lib
