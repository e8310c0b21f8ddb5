import KubeWaf.Lib.Leftmost

/-!
# Replacing all matches of an expression

`replaceAll` goes through a text from left to right, puts the captured text in the place of each
match, and goes on behind the match (`ReplaceAllString`, and `strings.ReplaceAll` for a literal). The
expressions are those that match no empty text and get shorter when they are replaced.
-/

namespace KubeWaf.Lib

open List

variable {α : Type*} {s rest t : List α} {q : α}

/-- The replacement in a text of which the first `skip` characters belong to a match. -/
def replaceFrom (m : Matcher α (List α)) : ℕ → List α → List α
  | _, [] => []
  | skip + 1, _ :: s => replaceFrom m skip s
  | 0, c :: s =>
    match m (c :: s) with
    | some (v, rest) => v ++ replaceFrom m (s.length - rest.length) s
    | none => c :: replaceFrom m 0 s

def replaceAll (m : Matcher α (List α)) (s : List α) : List α := replaceFrom m 0 s

/-- A match is a text that is longer than what comes in its place. -/
def Shortens (m : Matcher α (List α)) : Prop :=
  ∀ s v rest, m s = some (v, rest) → ∃ u, s = u ++ rest ∧ v.length < u.length

/-- No match starts in a text, as long as the text goes on with `t`. -/
def NoMatch (m : Matcher α (List α)) (s t : List α) : Prop :=
  ∀ u v, s = u ++ v → v ≠ [] → m (v ++ t) = none

section
variable {m : Matcher α (List α)} {v : List α}

lemma replaceFrom_eq (skip : ℕ) (s : List α) :
    replaceFrom m skip s = replaceAll m (s.drop skip) := by
  induction s generalizing skip with
  | nil => rw [drop_nil, replaceAll, replaceFrom, replaceFrom]
  | cons c s ih =>
    cases skip with
    | zero => rfl
    | succ skip => rw [replaceFrom, drop_succ_cons, ih]

lemma replaceAll_nil : replaceAll m [] = [] := rfl

lemma replaceAll_cons_of_none {c : α} (h : m (c :: s) = none) :
    replaceAll m (c :: s) = c :: replaceAll m s := by
  rw [replaceAll, replaceFrom, h]
  rfl

lemma replaceAll_of_some {u : List α} (hu : u ≠ []) (h : m (u ++ rest) = some (v, rest)) :
    replaceAll m (u ++ rest) = v ++ replaceAll m rest := by
  obtain ⟨c, u, rfl⟩ := exists_cons_of_ne_nil hu
  rw [cons_append] at h ⊢
  rw [replaceAll, replaceFrom, h]
  simp only [replaceFrom_eq]
  rw [length_append, Nat.add_sub_cancel, drop_left]

lemma Shortens.ne_nil (h : Shortens m) (hm : m s = some (v, rest)) :
    ∃ u, s = u ++ rest ∧ u ≠ [] ∧ v.length < u.length := by
  obtain ⟨u, hs, hlt⟩ := h s v rest hm
  exact ⟨u, hs, ne_nil_of_length_pos (by omega), hlt⟩

lemma noMatch_cons {c : α} (h : NoMatch m (c :: s) t) : m (c :: (s ++ t)) = none ∧ NoMatch m s t :=
  ⟨h [] (c :: s) rfl (cons_ne_nil _ _), fun u v hs => h (c :: u) v (by rw [hs]; rfl)⟩

lemma replaceAll_append_of_noMatch (h : NoMatch m s t) :
    replaceAll m (s ++ t) = s ++ replaceAll m t := by
  induction s with
  | nil => rfl
  | cons c s ih =>
    obtain ⟨hc, hs⟩ := noMatch_cons h
    rw [cons_append, replaceAll_cons_of_none hc, ih hs, cons_append]

lemma replaceAll_eq_self (h : NoMatch m s []) : replaceAll m s = s := by
  have happend := replaceAll_append_of_noMatch h
  rwa [append_nil, replaceAll_nil, append_nil] at happend

lemma replaceAllInduction (hm : Shortens m) {P : List α → Prop} (nil : P [])
    (skip : ∀ c s, m (c :: s) = none → P s → P (c :: s))
    (hit : ∀ u v rest, u ≠ [] → v.length < u.length → m (u ++ rest) = some (v, rest) → P rest →
      P (u ++ rest)) (s : List α) : P s := by
  induction hlen : s.length using Nat.strong_induction_on generalizing s with
  | _ n ih =>
    cases s with
    | nil => exact nil
    | cons c s =>
      cases hc : m (c :: s) with
      | none => exact skip c s hc (ih s.length (by rw [← hlen, length_cons]; omega) s rfl)
      | some r =>
        obtain ⟨v, rest⟩ := r
        obtain ⟨u, hu, hne, hlt⟩ := hm.ne_nil hc
        have hpos : 0 < u.length := length_pos_iff.mpr hne
        rw [hu] at hc hlen ⊢
        rw [length_append] at hlen
        exact hit u v rest hne hlt hc (ih rest.length (by omega) rest rfl)

lemma length_replaceAll_le (hm : Shortens m) (s : List α) :
    (replaceAll m s).length ≤ s.length := by
  induction s using replaceAllInduction hm with
  | nil => exact le_refl _
  | skip c s hc ih =>
    rw [replaceAll_cons_of_none hc, length_cons, length_cons]
    omega
  | hit u v rest hne hlt hc ih =>
    rw [replaceAll_of_some hne hc, length_append, length_append]
    omega

lemma length_replaceAll_lt (hm : Shortens m) {u : List α} (h : (m v).isSome) :
    (replaceAll m (u ++ v)).length < (u ++ v).length := by
  obtain ⟨⟨new, rest⟩, hv⟩ := Option.isSome_iff_exists.mp h
  generalize hs : u ++ v = s
  induction s using replaceAllInduction hm generalizing u with
  | nil =>
    obtain ⟨w, hw, hne, _⟩ := hm.ne_nil hv
    rw [(append_eq_nil_iff.mp hs).2] at hw
    exact absurd (append_eq_nil_iff.mp hw.symm).1 hne
  | skip c s hc ih =>
    cases u with
    | nil =>
      rw [nil_append] at hs
      rw [hs, hc] at hv
      cases hv
    | cons d u =>
      rw [cons_append, List.cons.injEq] at hs
      rw [replaceAll_cons_of_none hc, length_cons, length_cons]
      have := ih hs.2
      omega
  | hit w new' rest' hne hlt hc ih =>
    have hle := length_replaceAll_le hm rest'
    rw [replaceAll_of_some hne hc, length_append, length_append]
    omega

lemma exists_first_match (hm : Shortens m) (u : List α) (h : (m v).isSome) :
    ∃ a w new rest, u ++ v = a ++ (w ++ rest) ∧ a.length ≤ u.length ∧
      m (w ++ rest) = some (new, rest) ∧ replaceAll m (u ++ v) = a ++ (new ++ replaceAll m rest) := by
  induction u with
  | nil =>
    obtain ⟨⟨new, rest⟩, hv⟩ := Option.isSome_iff_exists.mp h
    obtain ⟨w, rfl, hne, _⟩ := hm.ne_nil hv
    exact ⟨[], w, new, rest, rfl, le_refl _, hv, replaceAll_of_some hne hv⟩
  | cons c u ih =>
    cases hc : m (c :: (u ++ v)) with
    | some r =>
      obtain ⟨new, rest⟩ := r
      obtain ⟨w, hw, hne, _⟩ := hm.ne_nil hc
      rw [hw] at hc
      refine ⟨[], w, new, rest, hw, Nat.zero_le _, hc, ?_⟩
      rw [cons_append, hw, replaceAll_of_some hne hc, nil_append]
    | none =>
      obtain ⟨a, w, new, rest, hsplit, hle, hw, hall⟩ := ih
      refine ⟨c :: a, w, new, rest, by rw [cons_append, hsplit, cons_append],
        Nat.succ_le_succ hle, hw, ?_⟩
      rw [cons_append, replaceAll_cons_of_none hc, hall, cons_append]

lemma replaceAll_eq_self_iff (hm : Shortens m) : replaceAll m s = s ↔ NoMatch m s [] := by
  constructor
  · intro h u v hs _
    rw [append_nil]
    by_contra hv
    have hlt := length_replaceAll_lt hm (u := u) (Option.isSome_iff_ne_none.mpr hv)
    rw [← hs, h] at hlt
    omega
  · exact replaceAll_eq_self

end

/-! ## Runs that stop at a separator -/

lemma takeWhile_append_cons_of_neg {p : α → Bool} (hq : p q = false) (s t : List α) :
    (s ++ q :: t).takeWhile p = s.takeWhile p := by
  induction s with
  | nil => rw [nil_append, takeWhile_cons_of_neg (by simp [hq])]; rfl
  | cons c s ih =>
    cases hc : p c with
    | true =>
      rw [cons_append, takeWhile_cons_of_pos hc, ih, takeWhile_cons_of_pos hc]
    | false =>
      rw [cons_append, takeWhile_cons_of_neg (by simp [hc]),
        takeWhile_cons_of_neg (by simp [hc])]

lemma dropWhile_append_cons_of_neg {p : α → Bool} (hq : p q = false) (s t : List α) :
    (s ++ q :: t).dropWhile p = s.dropWhile p ++ q :: t := by
  induction s with
  | nil => rw [nil_append, dropWhile_cons_of_neg (by simp [hq])]; rfl
  | cons c s ih =>
    cases hc : p c with
    | true =>
      rw [cons_append, dropWhile_cons_of_pos hc, ih, dropWhile_cons_of_pos hc]
    | false =>
      rw [cons_append, dropWhile_cons_of_neg (by simp [hc]),
        dropWhile_cons_of_neg (by simp [hc]), cons_append]

/-! ## Expressions within a piece

An expression that no match of crosses a separator: it is tried in each piece of a text alone. -/

/-- What the expression does ahead of the separator `q` does not depend on what follows. -/
def Within (q : α) (m : Matcher α (List α)) : Prop :=
  ∀ s t, m (s ++ q :: t) = (m s).map fun r => (r.1, r.2 ++ q :: t)

lemma exists_of_append_eq_append_cons {w : List α} (hw : q ∉ w) (h : w ++ rest = s ++ q :: t) :
    ∃ s', s = w ++ s' ∧ rest = s' ++ q :: t := by
  obtain ⟨s', hs, hrest⟩ | ⟨w', hw', hq⟩ := append_eq_append_iff.mp h
  · exact ⟨s', hs, hrest⟩
  · cases w' with
    | nil => exact ⟨[], by rw [hw', append_nil, append_nil], hq.symm⟩
    | cons c w' =>
      rw [cons_append, List.cons.injEq] at hq
      exact absurd (hw' ▸ mem_append_right s (hq.1 ▸ mem_cons_self)) hw

lemma infix_append_cons {w a c : List α} (hw : q ∉ w) (h : w <:+: a ++ q :: c) :
    w <:+: a ∨ w <:+: c := by
  obtain ⟨u, v, h⟩ := h
  rw [append_assoc, append_eq_append_iff] at h
  obtain ⟨a', ha, hrest⟩ | ⟨c', hu, hc⟩ := h
  · obtain ⟨s', rfl, _⟩ := exists_of_append_eq_append_cons hw hrest
    exact .inl ⟨u, s', by rw [ha, append_assoc]⟩
  · cases c' with
    | nil =>
      obtain ⟨s', hs', _⟩ := exists_of_append_eq_append_cons (s := []) hw hc.symm
      rw [(append_eq_nil_iff.mp hs'.symm).1]
      exact .inl (List.nil_infix)
    | cons d c' =>
      rw [cons_append, List.cons.injEq] at hc
      exact .inr ⟨c', v, by rw [hc.2, append_assoc]⟩

lemma within_of_append {m : Matcher α (List α)}
    (happend : ∀ s v rest t, m s = some (v, rest) → m (s ++ q :: t) = some (v, rest ++ q :: t))
    (hcut : ∀ s t v rest, m (s ++ q :: t) = some (v, rest) → ∃ rest', m s = some (v, rest')) :
    Within q m := by
  intro s t
  cases hms : m s with
  | some r => exact happend s r.1 r.2 t hms
  | none =>
    cases hmt : m (s ++ q :: t) with
    | none => rfl
    | some r =>
      obtain ⟨rest', hsome⟩ := hcut s t r.1 r.2 hmt
      rw [hms] at hsome
      cases hsome

lemma replaceAll_append_cons {m : Matcher α (List α)} (hm : Shortens m) (hwithin : Within q m)
    (s t : List α) : replaceAll m (s ++ q :: t) = replaceAll m s ++ q :: replaceAll m t := by
  induction s using replaceAllInduction hm with
  | nil =>
    have hnone : m [] = none := by
      cases hnil : m [] with
      | none => rfl
      | some r =>
        obtain ⟨u, hu, hne, _⟩ := hm.ne_nil hnil
        exact absurd (append_eq_nil_iff.mp hu.symm).1 hne
    have hq : m (q :: t) = none := by
      have := hwithin [] t
      rwa [hnone] at this
    rw [nil_append, replaceAll_cons_of_none hq]
    rfl
  | skip c s hc ih =>
    have hc' : m (c :: (s ++ q :: t)) = none := by
      have := hwithin (c :: s) t
      rwa [hc] at this
    rw [cons_append, replaceAll_cons_of_none hc', ih, replaceAll_cons_of_none hc]
    rfl
  | hit u v rest hne hlt hc ih =>
    have hc' : m (u ++ (rest ++ q :: t)) = some (v, rest ++ q :: t) := by
      have := hwithin (u ++ rest) t
      rwa [hc, append_assoc] at this
    rw [append_assoc, replaceAll_of_some hne hc', ih, replaceAll_of_some hne hc, append_assoc]

end KubeWaf.Lib
