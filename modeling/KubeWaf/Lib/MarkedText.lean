import KubeWaf.Lib.QuotedFields

/-!
# Replacing literals that start with a mark

Literals whose first character stands nowhere else in them, nor in what comes in their place: a
text is cut in front of each such mark, and a replacement is one at the start of each piece. So
several literals can be replaced in any order, if no literal starts another one or what comes in
the place of one.
-/

namespace KubeWaf.Lib

open List

variable {α : Type} {a : α} {u p x : List α} {pieces : List (List α)}

/-- A text in front of pieces that start with the mark. -/
def marked (a : α) (u : List α) (pieces : List (List α)) : List α := u ++ pieces.flatMap (a :: ·)

lemma exists_marked [DecidableEq α] (a : α) (s : List α) :
    ∃ u pieces, s = marked a u pieces ∧ a ∉ u ∧ ∀ x ∈ pieces, a ∉ x := by
  induction s with
  | nil => exact ⟨[], [], rfl, not_mem_nil, fun x hx => absurd hx not_mem_nil⟩
  | cons c s ih =>
    obtain ⟨u, pieces, rfl, hu, hpieces⟩ := ih
    by_cases hc : c = a
    · refine ⟨[], u :: pieces, by simp [marked, hc], not_mem_nil, ?_⟩
      exact forall_mem_cons.mpr ⟨hu, hpieces⟩
    · exact ⟨c :: u, pieces, rfl, by simp [Ne.symm hc, hu], hpieces⟩

lemma prefix_of_prefix_pieces (hp : a ∉ p) (h : p <+: x ++ pieces.flatMap (a :: ·)) : p <+: x := by
  obtain ⟨t, ht⟩ := h
  rcases append_eq_append_iff.mp ht with ⟨y, hx, _⟩ | ⟨y, hy, hrest⟩
  · exact ⟨y, hx.symm⟩
  · -- what is left of `p` behind the piece would start with the mark
    cases y with
    | nil => exact ⟨[], by rw [append_nil, hy, append_nil]⟩
    | cons c y =>
      cases pieces with
      | nil => cases hrest
      | cons x' pieces =>
        rw [flatMap_cons, cons_append, cons_append, List.cons.injEq] at hrest
        exact absurd (by rw [hy, ← hrest.1]; simp) hp

lemma infix_of_infix_append (hu : a ∉ u) {t : List α} (h : a :: p <:+: u ++ t) :
    a :: p <:+: t := by
  induction u with
  | nil => exact h
  | cons c u ih =>
    rcases infix_cons_iff.mp h with h | h
    · exact absurd (by rw [(cons_prefix_cons.mp h).1]; exact mem_cons_self) hu
    · exact ih (not_mem_of_not_mem_cons hu) h

lemma exists_prefix_of_infix (hp : a ∉ p) (hu : a ∉ u) (hpieces : ∀ x ∈ pieces, a ∉ x)
    (h : a :: p <:+: marked a u pieces) : ∃ x ∈ pieces, p <+: x := by
  replace h := infix_of_infix_append hu h
  induction pieces with
  | nil => exact absurd (infix_nil.mp h) (cons_ne_nil _ _)
  | cons x pieces ih =>
    obtain ⟨hx, hpieces⟩ := forall_mem_cons.mp hpieces
    rcases infix_cons_iff.mp h with h | h
    · exact ⟨x, mem_cons_self, prefix_of_prefix_pieces hp (cons_prefix_cons.mp h).2⟩
    · obtain ⟨y, hy, hprefix⟩ := ih hpieces (infix_of_infix_append hx h)
      exact ⟨y, mem_cons_of_mem _ hy, hprefix⟩

/-- A literal without its mark, and what comes in its place. -/
structure MarkedRule (a : α) where
  lit : List α
  new : List α
  lit_mark : a ∉ lit
  new_mark : a ∉ new

namespace MarkedRule

variable [DecidableEq α] {e e' : MarkedRule a} {rules : List (MarkedRule a)}

def matcher (e : MarkedRule a) : Matcher α (List α) := literalTo (a :: e.lit) (a :: e.new)

/-- The replacement at the start of a piece. -/
def head (x : List α) (e : MarkedRule a) : List α :=
  if e.lit <+: x then e.new ++ x.drop e.lit.length else x

lemma matcher_eq_none {s : List α} (h : ¬a :: e.lit <+: s) : e.matcher s = none := by
  cases hm : e.matcher s with
  | none => rfl
  | some r => exact absurd ⟨r.2, (literalTo_eq_some_iff.mp hm).1.symm⟩ h

lemma mark_notMem_head (hx : a ∉ x) : a ∉ head x e := by
  rw [head]
  split_ifs
  · exact fun h => (mem_append.mp h).elim e.new_mark fun h => hx (mem_of_mem_drop h)
  · exact hx

lemma replaceAll_append (hu : a ∉ u) (t : List α) :
    replaceAll e.matcher (u ++ t) = u ++ replaceAll e.matcher t := by
  apply replaceAll_append_of_noMatch
  intro v w huv hw
  obtain ⟨c, w, rfl⟩ := exists_cons_of_ne_nil hw
  apply matcher_eq_none
  intro h
  exact hu (by rw [huv, (cons_prefix_cons.mp h).1]; simp)

lemma replaceAll_marked (e : MarkedRule a) (hu : a ∉ u) (hpieces : ∀ x ∈ pieces, a ∉ x) :
    replaceAll e.matcher (marked a u pieces) = marked a u (pieces.map fun x => head x e) := by
  rw [marked, replaceAll_append hu, marked, append_cancel_left_eq]
  induction pieces with
  | nil => rfl
  | cons x pieces ih =>
    obtain ⟨hx, hpieces⟩ := forall_mem_cons.mp hpieces
    rw [map_cons, flatMap_cons, flatMap_cons, ← ih hpieces]
    by_cases hlit : e.lit <+: x
    · obtain ⟨y, rfl⟩ := hlit
      have hy : a ∉ y := fun h => hx (mem_append_right _ h)
      have hmatch : e.matcher ((a :: e.lit) ++ (y ++ pieces.flatMap (a :: ·))) =
          some (a :: e.new, y ++ pieces.flatMap (a :: ·)) :=
        literalTo_eq_some_iff.mpr ⟨rfl, rfl⟩
      rw [head, if_pos (prefix_append _ _), drop_left, ← cons_append, append_assoc,
        replaceAll_of_some (cons_ne_nil _ _) hmatch, replaceAll_append hy]
      simp
    · have hnone : e.matcher (a :: (x ++ pieces.flatMap (a :: ·))) = none :=
        matcher_eq_none fun h =>
          hlit (prefix_of_prefix_pieces e.lit_mark (cons_prefix_cons.mp h).2)
      rw [head, if_neg hlit, cons_append, replaceAll_cons_of_none hnone, replaceAll_append hx]
      rfl

lemma foldl_replaceAll_marked (rules : List (MarkedRule a)) (hu : a ∉ u)
    (hpieces : ∀ x ∈ pieces, a ∉ x) :
    rules.foldl (fun s e => replaceAll e.matcher s) (marked a u pieces) =
      marked a u (pieces.map fun x => rules.foldl head x) := by
  induction rules generalizing pieces with
  | nil => simp
  | cons e rules ih =>
    rw [foldl_cons, replaceAll_marked e hu hpieces, ih, map_map]
    · rfl
    · intro x hx
      obtain ⟨y, hy, rfl⟩ := mem_map.mp hx
      exact mark_notMem_head (hpieces y hy)

/-- No literal starts another one, and none matches what comes in the place of one. -/
def Separate (rules : List (MarkedRule a)) : Prop :=
  ∀ e ∈ rules, ∀ e' ∈ rules, (e.lit <+: e'.lit → e.lit = e'.lit ∧ e.new = e'.new) ∧
    ¬e.lit <+: e'.new ∧ ¬e'.new <+: e.lit

omit [DecidableEq α] in
lemma not_prefix_new (h : ¬e.lit <+: e'.new ∧ ¬e'.new <+: e.lit) (t : List α) :
    ¬e.lit <+: e'.new ++ t :=
  fun hlit => (List.prefix_or_prefix_of_prefix hlit (prefix_append _ _)).elim h.1 h.2

lemma not_prefix_head (h : ¬e.lit <+: e'.new ∧ ¬e'.new <+: e.lit) (hx : ¬e.lit <+: x) :
    ¬e.lit <+: head x e' := by
  rw [head]
  split_ifs
  · exact not_prefix_new h _
  · exact hx

lemma head_comm (hsep : Separate rules) (he : e ∈ rules) (he' : e' ∈ rules) (x : List α) :
    head (head x e) e' = head (head x e') e := by
  have hnew := not_prefix_new (hsep e he e' he').2 (x.drop e'.lit.length)
  have hnew' := not_prefix_new (hsep e' he' e he).2 (x.drop e.lit.length)
  by_cases hx : e.lit <+: x
  · by_cases hx' : e'.lit <+: x
    · -- both literals stand at the start, so they are one
      obtain ⟨hlit, heq⟩ : e.lit = e'.lit ∧ e.new = e'.new := by
        rcases prefix_or_prefix_of_prefix hx hx' with h | h
        · exact (hsep e he e' he').1 h
        · exact ((hsep e' he' e he).1 h).imp Eq.symm Eq.symm
      simp [head, hlit, heq]
    · simp [head, if_pos hx, if_neg hx', if_neg hnew']
  · by_cases hx' : e'.lit <+: x
    · simp [head, if_neg hx, if_pos hx', if_neg hnew]
    · simp [head, if_neg hx, if_neg hx']

lemma not_prefix_foldl (hsep : Separate rules) (he : e ∈ rules) (x : List α) :
    ¬e.lit <+: rules.foldl head x := by
  obtain ⟨before, behind, rfl⟩ := append_of_mem he
  rw [foldl_append, foldl_cons]
  refine foldlRecOn (motive := (¬e.lit <+: ·)) behind head ?_ fun y hy e' he' => ?_
  · rw [head]
    split_ifs with h
    · exact not_prefix_new (hsep e he e he).2 _
    · exact h
  · exact not_prefix_head (hsep e he e' (mem_append_right _ (mem_cons_of_mem _ he'))).2 hy

lemma foldl_replaceAll_perm {rules' : List (MarkedRule a)} (hsep : Separate rules)
    (hperm : rules.Perm rules') (s : List α) :
    rules.foldl (fun s e => replaceAll e.matcher s) s =
      rules'.foldl (fun s e => replaceAll e.matcher s) s := by
  obtain ⟨u, pieces, rfl, hu, hpieces⟩ := exists_marked a s
  rw [foldl_replaceAll_marked rules hu hpieces, foldl_replaceAll_marked rules' hu hpieces]
  congr 1
  refine map_congr_left fun x _ => ?_
  exact hperm.foldl_eq' (fun e he e' he' y => head_comm hsep he he' y) x

lemma not_infix_foldl_replaceAll (hsep : Separate rules) (he : e ∈ rules) (s : List α) :
    ¬a :: e.lit <:+: rules.foldl (fun s e => replaceAll e.matcher s) s := by
  obtain ⟨u, pieces, rfl, hu, hpieces⟩ := exists_marked a s
  have hunmarked : ∀ x ∈ pieces, a ∉ rules.foldl head x := fun x hx =>
    foldlRecOn (motive := (a ∉ ·)) rules head (hpieces x hx) fun y hy e _ => mark_notMem_head hy
  rw [foldl_replaceAll_marked rules hu hpieces]
  intro hinfix
  obtain ⟨x, hx, hprefix⟩ := exists_prefix_of_infix e.lit_mark hu
    (forall_mem_map.mpr hunmarked) hinfix
  obtain ⟨y, _, rfl⟩ := mem_map.mp hx
  exact not_prefix_foldl hsep he y hprefix

end MarkedRule

end KubeWaf.Lib
