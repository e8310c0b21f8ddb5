import KubeWaf.Lib.Framed

/-!
# Quoted fields

The expression `key'…'`, in which the quotes `b` are taken away and the text between them may be
rewritten. The text between the quotes runs up to the next quote, wherever that is: what it cannot
do is change a stretch of text that holds no quote and in which no field opens.
-/

namespace KubeWaf.Lib

open List

variable {α : Type}

/-! ## Cuts

Each cut starts at a quote and holds no separator. -/

/-- `t` is `s` with stretches replaced that start with `b` and hold no separator. -/
inductive Cuts (b q : α) : List α → List α → Prop
  | nil : Cuts b q [] []
  | keep (c : α) {s t : List α} : Cuts b q s t → Cuts b q (c :: s) (c :: t)
  | cut {u v s t : List α} : q ∉ b :: u → q ∉ v → Cuts b q s t → Cuts b q (b :: (u ++ s)) (v ++ t)

lemma Cuts.append_left {b q : α} {s t : List α} (u : List α) (h : Cuts b q s t) :
    Cuts b q (u ++ s) (u ++ t) := by
  induction u with
  | nil => exact h
  | cons c u ih => exact .keep c ih

lemma Cuts.exists_of_notMem {b q : α} {u s t : List α} (hu : b ∉ u) (h : Cuts b q (u ++ s) t) :
    ∃ t', t = u ++ t' ∧ Cuts b q s t' := by
  induction u generalizing t with
  | nil => exact ⟨t, rfl, h⟩
  | cons c u ih =>
    rw [mem_cons, not_or] at hu
    generalize hs : (c :: u) ++ s = s' at h
    cases h with
    | nil => cases hs
    | keep d h =>
      rw [cons_append, List.cons.injEq] at hs
      rw [← hs.2] at h
      obtain ⟨t', rfl, h'⟩ := ih hu.2 h
      exact ⟨t', by rw [hs.1, cons_append], h'⟩
    | cut _ _ h =>
      rw [cons_append, List.cons.injEq] at hs
      exact absurd hs.1.symm hu.1

variable [DecidableEq α]

/-! ## Expressions -/

/-- A fixed text, replaced by another one. -/
def literalTo (lit new : List α) : Matcher α (List α) := literal lit fun rest => some (new, rest)

/-- The text up to the next `b`, which belongs to the match. -/
def upTo (b : α) : Matcher α (List α)
  | [] => none
  | c :: s => if c = b then some ([], s) else (upTo b s).map fun r => (c :: r.1, r.2)

/-- A field in quotes; `g` says whether the text between the quotes is one of the field's, and
what it becomes. -/
def quotedField (key : List α) (b : α) (g : List α → Option (List α)) : Matcher α (List α) :=
  literal (key ++ [b]) fun s =>
    (upTo b s).bind fun r => (g r.1).map fun y => (key ++ y, r.2)

section
variable {q b : α} {s t u v w x rest lit new : List α}

lemma literalTo_eq_some_iff : literalTo lit new s = some (v, rest) ↔ s = lit ++ rest ∧ v = new := by
  constructor
  · intro h
    obtain ⟨t, hs, ht⟩ := literal_eq_some h
    simp only [Option.some.injEq, Prod.mk.injEq] at ht
    rw [hs, ht.1, ht.2]
    exact ⟨rfl, rfl⟩
  · intro ⟨hs, hv⟩
    rw [hs, hv, literalTo, literal_append]

lemma upTo_eq_some_iff : upTo b s = some (x, rest) ↔ b ∉ x ∧ s = x ++ b :: rest := by
  induction s generalizing x with
  | nil =>
    rw [upTo]
    constructor
    · intro h
      cases h
    · intro ⟨_, h⟩
      exact absurd h.symm (append_ne_nil_of_right_ne_nil _ (cons_ne_nil _ _))
  | cons c s ih =>
    rw [upTo]
    by_cases hc : c = b
    · rw [if_pos hc, hc]
      cases x with
      | nil =>
        simp
      | cons d x =>
        simp only [Option.some.injEq, Prod.mk.injEq, cons_append, List.cons.injEq,
          mem_cons, not_or, reduceCtorEq, false_and, false_iff, not_and]
        exact fun hd hbd => absurd hbd hd.1
    · rw [if_neg hc, Option.map_eq_some_iff]
      constructor
      · intro ⟨⟨y, rest'⟩, hy, heq⟩
        simp only [Prod.mk.injEq] at heq
        rw [heq.2] at hy
        obtain ⟨hb, rfl⟩ := ih.mp hy
        rw [← heq.1, mem_cons, not_or]
        exact ⟨⟨fun hbc => hc hbc.symm, hb⟩, rfl⟩
      · intro ⟨hb, hs⟩
        cases x with
        | nil =>
          rw [nil_append, List.cons.injEq] at hs
          exact absurd hs.1 hc
        | cons d x =>
          rw [cons_append, List.cons.injEq] at hs
          rw [mem_cons, not_or] at hb
          exact ⟨(x, rest), ih.mpr ⟨hb.2, hs.2⟩, by rw [hs.1]⟩

variable {key f : List α} {g : List α → Option (List α)} {fs : List (List α × ℕ)}

lemma quotedField_eq_some_iff : quotedField key b g s = some (v, rest) ↔
    ∃ x y, b ∉ x ∧ g x = some y ∧ s = key ++ b :: (x ++ b :: rest) ∧ v = key ++ y := by
  constructor
  · intro h
    obtain ⟨t, hs, ht⟩ := literal_eq_some h
    obtain ⟨⟨x, rest'⟩, hx, hy⟩ := Option.bind_eq_some_iff.mp ht
    obtain ⟨y, hgy, heq⟩ := Option.map_eq_some_iff.mp hy
    simp only [Prod.mk.injEq] at heq
    obtain ⟨hb, hxt⟩ := (upTo_eq_some_iff).mp hx
    refine ⟨x, y, hb, hgy, ?_, heq.1.symm⟩
    rw [hs, hxt, heq.2, append_assoc, singleton_append]
  · intro ⟨x, y, hb, hgy, hs, hv⟩
    have hkey : key ++ b :: (x ++ b :: rest) = (key ++ [b]) ++ (x ++ b :: rest) := by
      rw [append_assoc, singleton_append]
    have hupTo : upTo b (x ++ b :: rest) = some (x, rest) := (upTo_eq_some_iff).mpr ⟨hb, rfl⟩
    rw [hs, hv, hkey, quotedField, literal_append, hupTo, Option.bind_some, hgy, Option.map_some]

/-! ## Matches and separators -/

lemma within_literalTo (hlit : q ∉ lit) : Within q (literalTo lit new) := by
  apply within_of_append
  · intro s v rest t h
    rw [literalTo_eq_some_iff] at h ⊢
    rw [h.1, h.2, append_assoc]
    exact ⟨rfl, rfl⟩
  · intro s t v rest h
    rw [literalTo_eq_some_iff] at h
    obtain ⟨s', hs, _⟩ := exists_of_append_eq_append_cons hlit h.1.symm
    exact ⟨s', (literalTo_eq_some_iff).mpr ⟨hs, h.2⟩⟩

lemma tightening_literalTo (hlit : q ∉ lit) (hnew : q ∉ new) (hlt : new.length < lit.length) :
    Tightening q (literalTo lit new) := by
  intro s v rest h
  obtain ⟨hs, hv⟩ := (literalTo_eq_some_iff).mp h
  rw [hv]
  exact ⟨lit, hs, hlt, squeezes_of_notMem hlit hnew (.inr hlt)⟩

lemma within_quotedField (hkey : q ∉ key) (hb : q ≠ b) (hg : ∀ x, q ∈ x → g x = none) :
    Within q (quotedField key b g) := by
  apply within_of_append
  · intro s v rest t h
    rw [quotedField_eq_some_iff] at h ⊢
    obtain ⟨x, y, hx, hy, hs, hv⟩ := h
    refine ⟨x, y, hx, hy, ?_, hv⟩
    rw [hs, append_assoc, cons_append, append_assoc, cons_append]
  · intro s t v rest h
    obtain ⟨x, y, hx, hy, hs, hv⟩ := (quotedField_eq_some_iff).mp h
    have hq : q ∉ x := by
      intro hmem
      rw [hg x hmem] at hy
      cases hy
    have hw : q ∉ key ++ b :: (x ++ [b]) := by
      simp only [mem_append, mem_cons, not_mem_nil, or_false, not_or]
      exact ⟨hkey, hb, hq, hb⟩
    have hmatch : (key ++ b :: (x ++ [b])) ++ rest = s ++ q :: t := by
      rw [hs]
      simp
    obtain ⟨s', hs', _⟩ := exists_of_append_eq_append_cons hw hmatch
    refine ⟨s', (quotedField_eq_some_iff).mpr ⟨x, y, hx, hy, ?_, hv⟩⟩
    rw [hs']
    simp

/-- The values that `g` changes hold no separator, and do not get longer. -/
def Rewrites (q : α) (g : List α → Option (List α)) : Prop :=
  ∀ x y, g x = some y → y = x ∨ q ∉ x ∧ q ∉ y ∧ y.length ≤ x.length

lemma Rewrites.squeezes (hg : Rewrites q g) (hb : q ≠ b) {y : List α} (hy : g x = some y) :
    Squeezes q (x ++ [b]) y := by
  have hqb : q ∉ [b] := fun hmem => hb (mem_singleton.mp hmem)
  obtain rfl | ⟨hx, hqy, hlen⟩ := hg x y hy
  · have hdrop : Squeezes q [b] [] := squeezes_of_notMem hqb not_mem_nil (.inr Nat.zero_lt_one)
    have happend := (Squeezes.refl q y).append hdrop
    rwa [append_nil] at happend
  · refine squeezes_of_notMem ?_ hqy (.inr ?_)
    · rw [mem_append, not_or]
      exact ⟨hx, hqb⟩
    · rw [length_append, length_singleton]
      omega

lemma tightening_quotedField (key : List α) (hb : q ≠ b) (hg : Rewrites q g) :
    Tightening q (quotedField key b g) := by
  intro s v rest h
  obtain ⟨x, y, hx, hy, hs, hv⟩ := (quotedField_eq_some_iff).mp h
  have hqb : q ∉ [b] := fun hmem => hb (mem_singleton.mp hmem)
  have hopen : Squeezes q [b] [] := squeezes_of_notMem hqb not_mem_nil (.inr Nat.zero_lt_one)
  refine ⟨key ++ ([b] ++ (x ++ [b])), ?_, ?_, ?_⟩
  · rw [hs]
    simp
  · have hlen : y.length ≤ x.length := by
      obtain rfl | ⟨_, _, hle⟩ := hg x y hy
      · exact le_refl _
      · exact hle
    rw [hv]
    simp only [length_append, length_singleton]
    omega
  · rw [hv]
    exact (Squeezes.refl q key).append (hopen.append (hg.squeezes hb hy))

/-! ## Texts in which no field opens -/

lemma noMatch_quotedField (hq : q ∉ key ++ [b]) (hopen : ¬ key ++ [b] <:+: s) (t : List α) :
    NoMatch (quotedField key b g) s (q :: t) := by
  intro u v hs _
  cases hm : quotedField key b g (v ++ q :: t) with
  | none => rfl
  | some r =>
    obtain ⟨x, _, _, _, hv, _⟩ := (quotedField_eq_some_iff).mp hm
    have hmatch : (key ++ [b]) ++ (x ++ b :: r.2) = v ++ q :: t := by
      rw [hv, append_assoc, singleton_append]
    obtain ⟨v', rfl, _⟩ := exists_of_append_eq_append_cons hq hmatch
    rw [hs] at hopen
    exact absurd ⟨u, v', append_assoc _ _ _⟩ hopen

lemma replaceAll_quotedField_append_cons (hq : q ∉ key ++ [b]) (hopen : ¬ key ++ [b] <:+: s)
    (t : List α) : replaceAll (quotedField key b g) (s ++ q :: t)
      = s ++ q :: replaceAll (quotedField key b g) t := by
  have hsep : quotedField key b g (q :: t) = none := by
    cases hm : quotedField key b g (q :: t) with
    | none => rfl
    | some r =>
      obtain ⟨x, _, _, _, hv, _⟩ := (quotedField_eq_some_iff).mp hm
      have hmatch : (key ++ [b]) ++ (x ++ b :: r.2) = [] ++ q :: t := by
        rw [nil_append, hv, append_assoc, singleton_append]
      obtain ⟨s', hs', _⟩ := exists_of_append_eq_append_cons hq hmatch
      have hnil := (append_eq_nil_iff.mp hs'.symm).1
      exact absurd hnil (append_ne_nil_of_right_ne_nil _ (cons_ne_nil _ _))
  rw [replaceAll_append_of_noMatch (noMatch_quotedField hq hopen t), replaceAll_cons_of_none hsep]

lemma noMatch_quotedField_key (hopen : ¬ key ++ [b] <:+: s ++ key) (t : List α) :
    NoMatch (quotedField key b g) s (key ++ t) := by
  intro u v hs hne
  cases hm : quotedField key b g (v ++ (key ++ t)) with
  | none => rfl
  | some r =>
    obtain ⟨x, _, _, _, hv, _⟩ := (quotedField_eq_some_iff).mp hm
    have hpre : key ++ [b] <+: (v ++ key) ++ t :=
      ⟨x ++ b :: r.2, by rw [append_assoc v, hv, append_assoc, singleton_append]⟩
    have hlen : (key ++ [b]).length ≤ (v ++ key).length := by
      have hpos := length_pos_iff.mpr hne
      rw [length_append, length_append, length_singleton]
      omega
    obtain ⟨w, hw⟩ := prefix_of_prefix_length_le hpre (prefix_append _ _) hlen
    rw [hs, append_assoc, ← hw] at hopen
    exact absurd ⟨u, w, append_assoc _ _ _⟩ hopen

/-! ## What a field takes from a text -/

lemma Cuts.exists_of_append_cons (h : Cuts b q (x ++ q :: s) t) :
    ∃ x' t', t = x' ++ q :: t' ∧ x'.count q = x.count q ∧ Cuts b q s t' := by
  generalize hs : x ++ q :: s = s' at h
  induction h generalizing x with
  | nil => exact absurd hs (append_ne_nil_of_right_ne_nil _ (cons_ne_nil _ _))
  | keep c h ih =>
    cases x with
    | nil =>
      rw [nil_append, List.cons.injEq] at hs
      obtain ⟨rfl, rfl⟩ := hs
      exact ⟨[], _, rfl, rfl, h⟩
    | cons d x =>
      rw [cons_append, List.cons.injEq] at hs
      obtain ⟨x', t', rfl, hcount, h'⟩ := ih hs.2
      exact ⟨c :: x', t', rfl, by rw [hs.1, count_cons, count_cons, hcount], h'⟩
  | cut hu hv h ih =>
    obtain ⟨x₁, rfl, hs₁⟩ := exists_of_append_eq_append_cons hu hs.symm
    obtain ⟨x', t', rfl, hcount, h'⟩ := ih hs₁.symm
    refine ⟨_ ++ x', t', (append_assoc _ _ _).symm, ?_, h'⟩
    rw [count_append, count_append, count_eq_zero.mpr hv, count_eq_zero.mpr hu, hcount]

lemma Framed.of_cuts {tail : List α} (hb : q ≠ b) (hs : Framed q fs tail s)
    (hfs : ∀ f ∈ fs, b ∉ f.1) (htail : b ∉ tail) (h : Cuts b q s t) : Framed q fs tail t := by
  induction fs generalizing s t with
  | nil =>
    rw [framed_nil_iff] at hs ⊢
    rw [hs, ← append_nil tail] at h
    obtain ⟨t', rfl, hnil⟩ := h.exists_of_notMem htail
    cases hnil
    exact append_nil _
  | cons fn fs ih =>
    obtain ⟨f, n⟩ := fn
    obtain ⟨x, s', hx, hs', rfl⟩ := framed_cons_iff.mp hs
    rw [forall_mem_cons] at hfs
    have hsep : b ∉ f ++ [q] := by
      rw [mem_append, mem_singleton, not_or]
      exact ⟨hfs.1, fun hbq => hb hbq.symm⟩
    rw [append_cons] at h
    obtain ⟨t₁, rfl, h₁⟩ := h.exists_of_notMem hsep
    obtain ⟨x', t₂, rfl, hx', h₂⟩ := h₁.exists_of_append_cons
    rw [framed_cons_iff]
    exact ⟨x', t₂, hx'.trans hx, ih hs' hfs.2 h₂, (append_cons _ _ _).symm⟩

lemma cuts_quotedField (hb : q ≠ b) (hg : Rewrites q g) (s : List α) :
    Cuts b q s (replaceAll (quotedField key b g) s) := by
  have hqb : q ∉ [b] := fun hmem => hb (mem_singleton.mp hmem)
  induction s using replaceAllInduction (tightening_quotedField key hb hg).shortens with
  | nil => exact .nil
  | skip c s hc ih =>
    rw [replaceAll_cons_of_none hc]
    exact .keep c ih
  | hit u v rest hne hlt hc ih =>
    rw [replaceAll_of_some hne hc]
    obtain ⟨x, y, hx, hy, hs, rfl⟩ := (quotedField_eq_some_iff).mp hc
    rw [hs, append_assoc]
    apply Cuts.append_left
    obtain rfl | ⟨hqx, hqy, _⟩ := hg x y hy
    · exact .cut (u := []) (v := []) hqb not_mem_nil
        ((Cuts.cut (u := []) (v := []) hqb not_mem_nil ih).append_left y)
    · have hqu : q ∉ b :: (x ++ [b]) := by
        simp only [mem_cons, mem_append, not_mem_nil, or_false, not_or]
        exact ⟨hb, hqx, hb⟩
      have hcut := Cuts.cut hqu hqy ih
      rwa [append_assoc] at hcut

lemma framed_quotedField {tail : List α} {n : ℕ} (hb : q ≠ b) (hkey : q ∉ key) (hg : Rewrites q g)
    (hs : Framed q ((f, n) :: fs) tail s) (hopen : ¬ key ++ [b] <:+: f) (hfs : ∀ f ∈ fs, b ∉ f.1)
    (htail : b ∉ tail) : Framed q ((f, n) :: fs) tail (replaceAll (quotedField key b g) s) := by
  obtain ⟨x, s', hx, hs', rfl⟩ := framed_cons_iff.mp hs
  have hqkey : q ∉ key ++ [b] := by
    rw [mem_append, mem_singleton, not_or]
    exact ⟨hkey, hb⟩
  rw [replaceAll_quotedField_append_cons hqkey hopen, framed_cons_iff]
  obtain ⟨x', t', heq, hx', hcuts⟩ := (cuts_quotedField hb hg (x ++ q :: s')).exists_of_append_cons
  exact ⟨x', t', hx'.trans hx, hs'.of_cuts hb hfs htail hcuts, by rw [heq]⟩

/-! ## Frames that are not left alone -/

lemma replaceAll_ne_of_opens {R R' : List α} (hb : q ≠ b) (hkey : q ∉ key) (hg : Rewrites q g)
    (htotal : ∀ x, (g x).isSome) (hopen : key ++ [b] <:+: f) (hR : b ∈ R) :
    replaceAll (quotedField key b g) (f ++ q :: R) ≠ f ++ q :: R' := by
  intro hall
  obtain ⟨u, f₂, rfl⟩ := hopen
  -- the field that opens in the frame is closed by the next quote
  have hsome : (quotedField key b g (key ++ b :: (f₂ ++ q :: R))).isSome := by
    have hmem : b ∈ f₂ ++ q :: R := mem_append_right _ (mem_cons_of_mem _ hR)
    obtain ⟨x, rest, hsplit, hx⟩ := eq_append_cons_of_mem hmem
    obtain ⟨y, hy⟩ := Option.isSome_iff_exists.mp (htotal x)
    have hmatch : quotedField key b g (key ++ b :: (x ++ b :: rest)) = some (key ++ y, rest) :=
      (quotedField_eq_some_iff).mpr ⟨x, y, hx, hy, rfl, rfl⟩
    rw [hsplit, hmatch]
    rfl
  obtain ⟨a, w, new, rest, hsplit, hle, hw, hfirst⟩ :=
    exists_first_match (tightening_quotedField key hb hg).shortens u hsome
  obtain ⟨x, y, hx, hy, hwx, rfl⟩ := (quotedField_eq_some_iff).mp hw
  -- the first match starts in the frame, and opens there
  obtain ⟨u', rfl⟩ : a <+: u :=
    prefix_of_prefix_length_le ⟨_, hsplit.symm⟩ (prefix_append _ _) hle
  rw [hwx, append_assoc, append_cancel_left_eq] at hsplit
  have hqkey : q ∉ key ++ [b] := by
    rw [mem_append, mem_singleton, not_or]
    exact ⟨hkey, hb⟩
  have hmatch : (key ++ [b]) ++ (x ++ b :: rest) = (u' ++ ((key ++ [b]) ++ f₂)) ++ q :: R := by
    simp [hsplit]
  obtain ⟨f₄, hf₄, hrest⟩ := exists_of_append_eq_append_cons hqkey hmatch
  have hframe : a ++ u' ++ (key ++ [b]) ++ f₂ = a ++ ((key ++ [b]) ++ f₄) := by
    rw [← hf₄]
    simp
  -- without the opening quote, the frame would have to grow again
  have htight : Tightens q ((a ++ (key ++ f₄)) ++ q :: R) ((a ++ ((key ++ [b]) ++ f₄)) ++ q :: R') := by
    have hsqueeze := ((Squeezes.refl q (a ++ key)).append (hg.squeezes hb hy)) _ _
      ((tightening_quotedField key hb hg).tightens rest)
    have hleft : (a ++ key) ++ (x ++ [b]) ++ rest = (a ++ (key ++ f₄)) ++ q :: R := by
      simp [hrest]
    have hright : (a ++ key) ++ y ++ replaceAll (quotedField key b g) rest
        = (a ++ ((key ++ [b]) ++ f₄)) ++ q :: R' := by
      rw [← hframe, ← hall]
      simp only [append_assoc, cons_append, nil_append] at hfirst ⊢
      exact hfirst.symm
    rwa [hleft, hright] at hsqueeze
  have hcount : (a ++ ((key ++ [b]) ++ f₄)).count q = (a ++ (key ++ f₄)).count q := by
    simp only [count_append, count_singleton]
    rw [if_neg (by simpa using fun h : b = q => hb h.symm), Nat.add_zero]
  have hlen := ((tightens_append_cons_iff hcount).mp htight).1.length_le
  simp only [length_append, length_singleton] at hlen
  omega

lemma replaceAll_ne_of_crosses {P P' R R' : List α} (hb : q ≠ b) (hg : Rewrites q g)
    (htotal : ∀ x, (g x).isSome) (hopen : ¬ key ++ [b] <:+: P ++ key) (hf : b ∈ f)
    (hcount : P'.count q = (P ++ key).count q) :
    replaceAll (quotedField key b g) (P ++ (key ++ b :: q :: (f ++ q :: R)))
      ≠ P' ++ q :: (f ++ q :: R') := by
  intro hall
  obtain ⟨x, f₂, rfl, hx⟩ := eq_append_cons_of_mem hf
  obtain ⟨y, hy⟩ := Option.isSome_iff_exists.mp (htotal (q :: x))
  -- the value holds a separator, so it stays as it is
  have hyx : y = q :: x := by
    obtain heq | ⟨hq, _⟩ := hg _ _ hy
    · exact heq
    · exact absurd mem_cons_self hq
  have hqx : b ∉ q :: x := by
    rw [mem_cons, not_or]
    exact ⟨fun h => hb h.symm, hx⟩
  have hmatch : quotedField key b g (key ++ b :: ((q :: x) ++ b :: (f₂ ++ q :: R)))
      = some (key ++ y, f₂ ++ q :: R) := (quotedField_eq_some_iff).mpr ⟨_, y, hqx, hy, rfl, rfl⟩
  have hne : key ++ b :: ((q :: x) ++ [b]) ≠ [] :=
    append_ne_nil_of_right_ne_nil _ (cons_ne_nil _ _)
  have htext : key ++ b :: q :: ((x ++ b :: f₂) ++ q :: R)
      = (key ++ b :: ((q :: x) ++ [b])) ++ (f₂ ++ q :: R) := by
    simp
  have hmatch' : quotedField key b g ((key ++ b :: ((q :: x) ++ [b])) ++ (f₂ ++ q :: R))
      = some (key ++ y, f₂ ++ q :: R) := by
    rw [← hmatch]
    simp
  rw [replaceAll_append_of_noMatch (noMatch_quotedField_key hopen _), htext,
    replaceAll_of_some hne hmatch', hyx] at hall
  have htight : Tightens q ((P ++ key) ++ q :: ((x ++ f₂) ++ q :: R))
      (P' ++ q :: ((x ++ b :: f₂) ++ q :: R')) := by
    have hsqueeze := Squeezes.refl q (P ++ (key ++ q :: x)) _ _
      ((tightening_quotedField key hb hg).tightens (f₂ ++ q :: R))
    rw [← hall]
    simp only [append_assoc, cons_append] at hsqueeze ⊢
    exact hsqueeze
  obtain ⟨_, hrest⟩ := (tightens_append_cons_iff hcount).mp htight
  have hcountf : (x ++ b :: f₂).count q = (x ++ f₂).count q := by
    rw [count_append, count_append, count_cons_of_ne fun h => hb h.symm]
  have hlen := ((tightens_append_cons_iff hcountf).mp hrest).1.length_le
  simp only [length_append, length_cons] at hlen
  omega


end

end KubeWaf.Lib
