import Mathlib.Algebra.Order.BigOperators.Group.List
import Mathlib.Algebra.Order.Ring.Nat
import Mathlib.Data.List.Pairwise
import Mathlib.Data.Set.Finite.Basic
import Mathlib.Order.WellFounded

/-!
# Expanding a listing that refers to further listings

A node has a list of lines. A line is a fault, an item, or an item with a node of its own
whose listing comes before it. `expand` writes the whole listing out, depth first, without
remembering the nodes it has seen; the first argument bounds the depth, and `none` says that
the bound was too small.

* `expand_terminates_iff_acc`: some bound is enough iff the node is accessible for `Child`;
  over finitely many nodes (`acc_iff_no_cycle`), iff no cycle can be reached;
* `mem_expand_iff`: what is written out are the lines of the reachable nodes;
* `expand_nodup_iff`: a key is written out at most once iff it ends one trail only;
* `expand_faults_filter`: the faults that one node alone can raise appear once per visit.
-/

namespace KubeWaf.Lib

open List

variable {ν ι ε : Type}

/-- One line of the listing of a node. -/
inductive Line (ν ι ε : Type) where
  | fault (e : ε)
  | leaf (i : ι)
  | branch (i : ι) (w : ν)
deriving DecidableEq

/-- What a line itself writes. -/
def Line.out : Line ν ι ε → ε ⊕ ι
  | .fault e => .inl e
  | .leaf i => .inr i
  | .branch i _ => .inr i

/-- One line written out, given the listings of the nodes it may refer to. -/
def expandLine (rec : ν → Option (List (ε ⊕ ι))) : Line ν ι ε → Option (List (ε ⊕ ι))
  | .fault e => some [.inl e]
  | .leaf i => some [.inr i]
  | .branch i w => (rec w).map (· ++ [.inr i])

/-- The lines of a node written out, in order. -/
def expandLines (rec : ν → Option (List (ε ⊕ ι))) : List (Line ν ι ε) → Option (List (ε ⊕ ι))
  | [] => some []
  | l :: ls => (expandLine rec l).bind fun a => (expandLines rec ls).map (a ++ ·)

/-- The listing of a node, written out to the given depth. -/
def expand (lines : ν → List (Line ν ι ε)) : ℕ → ν → Option (List (ε ⊕ ι))
  | 0, _ => none
  | n + 1, v => expandLines (expand lines n) (lines v)

/-- `w` is listed by `v`. -/
def Child (lines : ν → List (Line ν ι ε)) (w v : ν) : Prop := ∃ i, .branch i w ∈ lines v

/-- `u` is reached from `v` by following listings. -/
def Reached (lines : ν → List (Line ν ι ε)) : ν → ν → Prop :=
  Relation.ReflTransGen fun v w => Child lines w v

/-! ## Inversion -/

variable {rec rec' : ν → Option (List (ε ⊕ ι))} {l : Line ν ι ε} {ls : List (Line ν ι ε)}
  {r : List (ε ⊕ ι)} {lines lines' : ν → List (Line ν ι ε)} {v u : ν} {n : ℕ} {P : ε → Bool}

@[simp] lemma expandLines_nil (rec : ν → Option (List (ε ⊕ ι))) :
    expandLines rec ([] : List (Line ν ι ε)) = some [] := rfl

lemma expandLines_cons_eq_some :
    expandLines rec (l :: ls) = some r ↔
      ∃ a b, expandLine rec l = some a ∧ expandLines rec ls = some b ∧ r = a ++ b := by
  rw [expandLines, Option.bind_eq_some_iff]
  constructor
  · rintro ⟨a, ha, h⟩
    obtain ⟨b, hb, rfl⟩ := Option.map_eq_some_iff.mp h
    exact ⟨a, b, ha, hb, rfl⟩
  · rintro ⟨a, b, ha, hb, rfl⟩
    exact ⟨a, ha, Option.map_eq_some_iff.mpr ⟨b, hb, rfl⟩⟩

lemma expandLines_append (rec : ν → Option (List (ε ⊕ ι))) (ls ls' : List (Line ν ι ε)) :
    expandLines rec (ls ++ ls') =
      (expandLines rec ls).bind fun a => (expandLines rec ls').map (a ++ ·) := by
  induction ls with
  | nil => simp [expandLines_nil]
  | cons l ls ih =>
    rw [cons_append, expandLines, expandLines, ih]
    cases expandLine rec l <;> cases expandLines rec ls <;> cases expandLines rec ls' <;> simp

lemma expandLine_branch_eq_some {i : ι} {w : ν} :
    expandLine rec (.branch i w : Line ν ι ε) = some r ↔
      ∃ b, rec w = some b ∧ r = b ++ [.inr i] := by
  rw [expandLine, Option.map_eq_some_iff]
  exact exists_congr fun b => and_congr_right fun _ => eq_comm

lemma exists_expandLines_iff :
    (∃ r, expandLines rec ls = some r) ↔ ∀ i w, .branch i w ∈ ls → ∃ b, rec w = some b := by
  induction ls with
  | nil => simp [expandLines_nil]
  | cons l ls ih =>
    constructor
    · rintro ⟨r, hr⟩ i w hmem
      obtain ⟨a, b, ha, hb, -⟩ := (expandLines_cons_eq_some).mp hr
      rcases mem_cons.mp hmem with rfl | hmem
      · obtain ⟨c, hc, -⟩ := (expandLine_branch_eq_some).mp ha
        exact ⟨c, hc⟩
      · exact ih.mp ⟨b, hb⟩ i w hmem
    · intro h
      obtain ⟨b, hb⟩ := ih.mpr fun i w hmem => h i w (mem_cons_of_mem l hmem)
      have hl : ∃ a, expandLine rec l = some a := by
        cases l with
        | fault e => exact ⟨_, rfl⟩
        | leaf i => exact ⟨_, rfl⟩
        | branch i w =>
          obtain ⟨c, hc⟩ := h i w mem_cons_self
          exact ⟨_, (expandLine_branch_eq_some).mpr ⟨c, hc, rfl⟩⟩
      obtain ⟨a, ha⟩ := hl
      exact ⟨a ++ b, (expandLines_cons_eq_some).mpr ⟨a, b, ha, hb, rfl⟩⟩

/-! ## More depth does not change the listing -/

lemma expandLine_mono (h : ∀ w r, rec w = some r → rec' w = some r)
    (hl : expandLine rec l = some r) : expandLine rec' l = some r := by
  cases l with
  | fault e => exact hl
  | leaf i => exact hl
  | branch i w =>
    obtain ⟨b, hb, rfl⟩ := (expandLine_branch_eq_some).mp hl
    exact (expandLine_branch_eq_some).mpr ⟨b, h w b hb, rfl⟩

lemma expandLines_mono (h : ∀ w r, rec w = some r → rec' w = some r)
    (hr : expandLines rec ls = some r) : expandLines rec' ls = some r := by
  induction ls generalizing r with
  | nil => exact hr
  | cons l ls ih =>
    obtain ⟨a, b, ha, hb, rfl⟩ := (expandLines_cons_eq_some).mp hr
    exact (expandLines_cons_eq_some).mpr ⟨a, b, expandLine_mono h ha, ih hb, rfl⟩

lemma expand_succ (h : expand lines n v = some r) : expand lines (n + 1) v = some r := by
  induction n generalizing v r with
  | zero => cases h
  | succ n ih => exact expandLines_mono (fun w r hw => ih hw) h

lemma expand_mono {m : ℕ} (hnm : n ≤ m) (h : expand lines n v = some r) :
    expand lines m v = some r := by
  induction hnm with
  | refl => exact h
  | step _ ih => exact expand_succ ih

/-! ## Termination -/

lemma exists_common_bound (h : ∀ i w, .branch i w ∈ ls → ∃ n b, expand lines n w = some b) :
    ∃ n, ∀ i w, .branch i w ∈ ls → ∃ b, expand lines n w = some b := by
  induction ls with
  | nil => exact ⟨0, by simp⟩
  | cons l ls ih =>
    obtain ⟨n, hn⟩ := ih fun i w hmem => h i w (mem_cons_of_mem l hmem)
    have hl : ∃ m, ∀ i w, l = .branch i w → ∃ b, expand lines m w = some b := by
      cases l with
      | fault e => exact ⟨0, by simp⟩
      | leaf i => exact ⟨0, by simp⟩
      | branch i w =>
        obtain ⟨m, b, hb⟩ := h i w mem_cons_self
        refine ⟨m, fun j u huj => ?_⟩
        cases huj
        exact ⟨b, hb⟩
    obtain ⟨m, hm⟩ := hl
    refine ⟨max n m, fun i w hmem => ?_⟩
    rcases mem_cons.mp hmem with hlw | hmem
    · obtain ⟨b, hb⟩ := hm i w hlw.symm
      exact ⟨b, expand_mono (le_max_right n m) hb⟩
    · obtain ⟨b, hb⟩ := hn i w hmem
      exact ⟨b, expand_mono (le_max_left n m) hb⟩

lemma expand_terminates_iff_acc : (∃ n r, expand lines n v = some r) ↔ Acc (Child lines) v := by
  constructor
  · rintro ⟨n, r, h⟩
    induction n generalizing v r with
    | zero => cases h
    | succ n ih =>
      refine Acc.intro v fun w ⟨i, hw⟩ => ?_
      obtain ⟨b, hb⟩ := (exists_expandLines_iff).mp ⟨r, h⟩ i w hw
      exact ih b hb
  · intro hacc
    induction hacc with
    | intro v _ ih =>
      obtain ⟨n, hn⟩ := exists_common_bound fun i w hw => ih w ⟨i, hw⟩
      obtain ⟨r, hr⟩ := (exists_expandLines_iff).mpr hn
      exact ⟨n + 1, r, hr⟩

lemma acc_of_reached (hacc : Acc (Child lines) v) (hvu : Reached lines v u) :
    Acc (Child lines) u := by
  induction hvu with
  | refl => exact hacc
  | tail _ hstep ih => exact ih.inv hstep

lemma not_rel_self_of_acc {r : ν → ν → Prop} {a : ν} (hacc : Acc r a) : ¬ r a a := by
  induction hacc with
  | intro a _ ih => exact fun haa => ih a haa haa

lemma acc_iff_no_cycle (hfin : {u | Reached lines v u}.Finite) :
    Acc (Child lines) v ↔
      ¬ ∃ u, Reached lines v u ∧ Relation.TransGen (fun a b => Child lines b a) u u := by
  constructor
  · rintro hacc ⟨u, hvu, hcycle⟩
    -- accessibility travels down to `u`, where the cycle contradicts it
    have hu : Acc (Child lines) u := acc_of_reached hacc hvu
    exact not_rel_self_of_acc hu.transGen (Relation.transGen_swap.mp hcycle)
  · intro hno
    -- the transitive closure is a strict order on the finite set of reachable nodes
    let S := {u | Reached lines v u}
    have : Finite S := hfin
    let r : S → S → Prop := fun a b => Relation.TransGen (Child lines) a.1 b.1
    have : IsTrans S r := ⟨fun a b c hab hbc => hab.trans hbc⟩
    have : Std.Irrefl r := ⟨fun a haa => hno ⟨a.1, a.2, Relation.transGen_swap.mpr haa⟩⟩
    have hwf : WellFounded r := Finite.wellFounded_of_trans_of_irrefl r
    have hall : ∀ a : S, Acc (Child lines) a.1 := by
      intro a
      induction a using hwf.induction with
      | _ a ih =>
        refine Acc.intro a.1 fun w hw => ?_
        have hmem : Reached lines v w := a.2.tail hw
        exact ih ⟨w, hmem⟩ (.single hw)
    exact hall ⟨v, .refl⟩

/-! ## What is written out -/

lemma mem_expandLines_iff (h : expandLines rec ls = some r) {x : ε ⊕ ι} :
    x ∈ r ↔ ∃ l ∈ ls, l.out = x ∨ ∃ i w b, l = .branch i w ∧ rec w = some b ∧ x ∈ b := by
  induction ls generalizing r with
  | nil =>
    cases h
    simp
  | cons l ls ih =>
    obtain ⟨a, b, ha, hb, rfl⟩ := (expandLines_cons_eq_some).mp h
    have hl : x ∈ a ↔ l.out = x ∨ ∃ i w c, l = .branch i w ∧ rec w = some c ∧ x ∈ c := by
      cases l with
      | fault e =>
        cases ha
        simp [Line.out, eq_comm]
      | leaf i =>
        cases ha
        simp [Line.out, eq_comm]
      | branch i w =>
        obtain ⟨c, hc, rfl⟩ := (expandLine_branch_eq_some).mp ha
        rw [mem_append, mem_singleton]
        constructor
        · rintro (hx | rfl)
          · exact .inr ⟨i, w, c, rfl, hc, hx⟩
          · exact .inl rfl
        · rintro (hx | ⟨j, u, c', hju, hc', hx⟩)
          · exact .inr hx.symm
          · cases hju
            rw [hc] at hc'
            cases hc'
            exact .inl hx
    rw [mem_append, hl, ih hb]
    simp

lemma mem_expand_iff (h : expand lines n v = some r) {x : ε ⊕ ι} :
    x ∈ r ↔ ∃ u, Reached lines v u ∧ ∃ l ∈ lines u, l.out = x := by
  induction n generalizing v r with
  | zero => cases h
  | succ n ih =>
    rw [mem_expandLines_iff h]
    constructor
    · rintro ⟨l, hl, hx | ⟨i, w, b, rfl, hb, hx⟩⟩
      · exact ⟨v, .refl, l, hl, hx⟩
      · obtain ⟨u, hwu, hu⟩ := (ih hb).mp hx
        exact ⟨u, .head ⟨i, hl⟩ hwu, hu⟩
    · rintro ⟨u, hvu, l, hl, hx⟩
      rcases Relation.ReflTransGen.cases_head hvu with rfl | ⟨w, ⟨i, hw⟩, hwu⟩
      · exact ⟨l, hl, .inl hx⟩
      · obtain ⟨b, hb⟩ := (exists_expandLines_iff).mp ⟨r, h⟩ i w hw
        exact ⟨_, hw, .inr ⟨i, w, b, rfl, hb, (ih hb).mpr ⟨u, hwu, l, hl, hx⟩⟩⟩

/-! ## Trails

The lines of a node carry labels. A trail to a line names, at each node on the way, the label
of the line that is followed. -/

section Trails
variable {lab : Type} {labelled : ν → List (lab × Line ν ι ε)}

/-- `p` leads from `v` to a line that writes `x`. -/
def Trail (labelled : ν → List (lab × Line ν ι ε)) : ν → List lab → ε ⊕ ι → Prop
  | _, [], _ => False
  | v, a :: p, x => ∃ l, (a, l) ∈ labelled v ∧
      ((p = [] ∧ l.out = x) ∨ ∃ i w, l = .branch i w ∧ Trail labelled w p x)

/-- What is written out, paired with the trails that lead there. -/
def TrailsOf (labelled : ν → List (lab × Line ν ι ε)) (v : ν) (r : List (ε ⊕ ι))
    (ps : List (List lab × (ε ⊕ ι))) : Prop :=
  ps.map Prod.snd = r ∧ (ps.map Prod.fst).Nodup ∧ ∀ p x, (p, x) ∈ ps ↔ Trail labelled v p x

lemma exists_trails_line (hrec : ∀ w b, rec w = some b → ∃ ps, TrailsOf labelled w b ps)
    (hr : expandLine rec l = some r) (a : lab) :
    ∃ ps : List (List lab × (ε ⊕ ι)), ps.map Prod.snd = r ∧ (ps.map Prod.fst).Nodup ∧
      ∀ p x, (p, x) ∈ ps ↔ ∃ q, p = a :: q ∧
        ((q = [] ∧ l.out = x) ∨ ∃ i w, l = .branch i w ∧ Trail labelled w q x) := by
  cases l with
  | fault e =>
    cases hr
    exact ⟨[([a], .inl e)], rfl, by simp, by simp [Line.out, eq_comm]⟩
  | leaf i =>
    cases hr
    exact ⟨[([a], .inr i)], rfl, by simp, by simp [Line.out, eq_comm]⟩
  | branch i w =>
    obtain ⟨b, hb, rfl⟩ := (expandLine_branch_eq_some).mp hr
    obtain ⟨ps, hsnd, hnodup, hmem⟩ := hrec w b hb
    refine ⟨ps.map (fun p => (a :: p.1, p.2)) ++ [([a], .inr i)], ?_, ?_, ?_⟩
    · simp [← hsnd, Function.comp_def]
    · have hcons : (ps.map fun p => a :: p.1).Nodup := by
        have := hnodup.map (cons_injective (a := a))
        rwa [map_map] at this
      -- no trail below the branch is empty
      have hne : [a] ∉ ps.map fun p => a :: p.1 := by
        intro ha
        obtain ⟨⟨p, x⟩, hp, hpa⟩ := mem_map.mp ha
        have hnil : p = [] := (List.cons.inj hpa).2
        rw [hnil] at hp
        exact (hmem _ _).mp hp
      rw [map_append, map_map, nodup_append]
      refine ⟨hcons, nodup_singleton [a], fun p hp q hq hpq => hne ?_⟩
      rw [map_singleton, mem_singleton] at hq
      rw [hpq, hq] at hp
      exact hp
    · intro p x
      rw [mem_append, mem_map, mem_singleton]
      constructor
      · rintro (⟨⟨q, y⟩, hq, hqp⟩ | hp)
        · cases hqp
          exact ⟨q, rfl, .inr ⟨i, w, rfl, (hmem q y).mp hq⟩⟩
        · cases hp
          exact ⟨[], rfl, .inl ⟨rfl, rfl⟩⟩
      · rintro ⟨q, rfl, ⟨rfl, rfl⟩ | ⟨j, u, hju, hq⟩⟩
        · exact .inr rfl
        · cases hju
          exact .inl ⟨(q, x), (hmem q x).mpr hq, rfl⟩

lemma exists_trails_lines (hrec : ∀ w b, rec w = some b → ∃ ps, TrailsOf labelled w b ps)
    {ls : List (lab × Line ν ι ε)} (hls : (ls.map Prod.fst).Nodup)
    (hr : expandLines rec (ls.map Prod.snd) = some r) :
    ∃ ps : List (List lab × (ε ⊕ ι)), ps.map Prod.snd = r ∧ (ps.map Prod.fst).Nodup ∧
      ∀ p x, (p, x) ∈ ps ↔ ∃ a q l, p = a :: q ∧ (a, l) ∈ ls ∧
        ((q = [] ∧ l.out = x) ∨ ∃ i w, l = .branch i w ∧ Trail labelled w q x) := by
  induction ls generalizing r with
  | nil =>
    cases hr
    exact ⟨[], rfl, by simp, by simp⟩
  | cons al ls ih =>
    obtain ⟨a, l⟩ := al
    rw [map_cons] at hr hls
    obtain ⟨r₁, r₂, hr₁, hr₂, rfl⟩ := (expandLines_cons_eq_some).mp hr
    obtain ⟨hfresh, hrest⟩ := nodup_cons.mp hls
    obtain ⟨ps, hps, hpsn, hpsm⟩ := exists_trails_line hrec hr₁ a
    obtain ⟨qs, hqs, hqsn, hqsm⟩ := ih hrest hr₂
    refine ⟨ps ++ qs, by rw [map_append, hps, hqs], ?_, ?_⟩
    · -- trails through this line start with its label, the others with another one
      rw [map_append, nodup_append]
      refine ⟨hpsn, hqsn, fun p hp q hq hpq => ?_⟩
      obtain ⟨⟨p', x⟩, hp', rfl⟩ := mem_map.mp hp
      obtain ⟨⟨q', y⟩, hq', rfl⟩ := mem_map.mp hq
      obtain ⟨p'', hpa, -⟩ := (hpsm _ _).mp hp'
      obtain ⟨b, q'', l', hqb, hb, -⟩ := (hqsm _ _).mp hq'
      have hab : a = b := by
        simp only at hpq
        rw [hpa, hqb] at hpq
        exact (List.cons.inj hpq).1
      exact hfresh (mem_map.mpr ⟨(b, l'), hb, hab.symm⟩)
    · intro p x
      rw [mem_append, hpsm, hqsm]
      constructor
      · rintro (⟨q, rfl, hq⟩ | ⟨b, q, l', rfl, hl', hq⟩)
        · exact ⟨a, q, l, rfl, mem_cons_self, hq⟩
        · exact ⟨b, q, l', rfl, mem_cons_of_mem _ hl', hq⟩
      · rintro ⟨b, q, l', rfl, hl', hq⟩
        rcases mem_cons.mp hl' with hl' | hl'
        · cases hl'
          exact .inl ⟨q, rfl, hq⟩
        · exact .inr ⟨b, q, l', rfl, hl', hq⟩

lemma exists_trails (hlines : ∀ v, (labelled v).map Prod.snd = lines v)
    (hlabels : ∀ v, ((labelled v).map Prod.fst).Nodup) (h : expand lines n v = some r) :
    ∃ ps, TrailsOf labelled v r ps := by
  induction n generalizing v r with
  | zero => cases h
  | succ n ih =>
    rw [expand, ← hlines v] at h
    obtain ⟨ps, hsnd, hnodup, hmem⟩ := exists_trails_lines (fun w b hb => ih hb) (hlabels v) h
    refine ⟨ps, hsnd, hnodup, fun p x => ?_⟩
    rw [hmem p x]
    cases p with
    | nil => simp [Trail]
    | cons a p =>
      constructor
      · rintro ⟨b, q, l, hp, hl, hq⟩
        cases hp
        exact ⟨l, hl, hq⟩
      · rintro ⟨l, hl, hq⟩
        exact ⟨a, p, l, rfl, hl, hq⟩

lemma expand_nodup_iff {κ : Type} (hlines : ∀ v, (labelled v).map Prod.snd = lines v)
    (hlabels : ∀ v, ((labelled v).map Prod.fst).Nodup) (h : expand lines n v = some r)
    (key : ε ⊕ ι → Option κ) :
    (r.filterMap key).Nodup ↔ ∀ p q x y k, Trail labelled v p x → Trail labelled v q y →
      key x = some k → key y = some k → p = q := by
  obtain ⟨ps, hsnd, hnodup, hmem⟩ := exists_trails hlines hlabels h
  rw [← hsnd, filterMap_map, List.Nodup, pairwise_filterMap]
  constructor
  · intro hpw p q x y k hp hq hx hy
    by_contra hpq
    have hsymm : Std.Symm fun a a' : List lab × (ε ⊕ ι) =>
        ∀ b, (key ∘ Prod.snd) a = some b → ∀ b', (key ∘ Prod.snd) a' = some b' → b ≠ b' :=
      ⟨fun a a' haa b hb b' hb' hbb => haa b' hb' b hb hbb.symm⟩
    have hne : (p, x) ≠ (q, y) := fun hpx => hpq (congrArg Prod.fst hpx)
    exact hpw.forall ((hmem p x).mpr hp) ((hmem q y).mpr hq) hne k hx k hy rfl
  · intro hall
    have hps : ps.Nodup := hnodup.of_map
    refine hps.pairwise_of_forall_ne fun a ha b hb hab k hk k' hk' hkk => hab ?_
    subst hkk
    have hfst : a.1 = b.1 :=
      hall a.1 b.1 a.2 b.2 k ((hmem _ _).mp ha) ((hmem _ _).mp hb) hk hk'
    exact inj_on_of_nodup_map hnodup ha hb hfst

end Trails

/-! ## Items and faults apart -/

/-- The item on a line. -/
def Line.item? : Line ν ι ε → Option (ι × Option ν)
  | .fault _ => none
  | .leaf i => some (i, none)
  | .branch i w => some (i, some w)

/-- The items of a listing. -/
def itemsOf (r : List (ε ⊕ ι)) : List ι := r.filterMap Sum.getRight?

/-- The faults of a listing. -/
def faultsOf (r : List (ε ⊕ ι)) : List ε := r.filterMap Sum.getLeft?

/-- The items of some lines, each with the node it refers to. -/
def itemLines (ls : List (Line ν ι ε)) : List (ι × Option ν) := ls.filterMap Line.item?

/-- The faults among some lines. -/
def faultLines (ls : List (Line ν ι ε)) : List ε := ls.filterMap fun l => l.out.getLeft?

@[simp] lemma faultsOf_inr (i : ι) (r : List (ε ⊕ ι)) : faultsOf (.inr i :: r) = faultsOf r := rfl

@[simp] lemma itemsOf_nil : itemsOf ([] : List (ε ⊕ ι)) = [] := rfl

@[simp] lemma itemsOf_inl (e : ε) (r : List (ε ⊕ ι)) : itemsOf (.inl e :: r) = itemsOf r := rfl

@[simp] lemma itemsOf_inr (i : ι) (r : List (ε ⊕ ι)) :
    itemsOf (.inr i :: r) = i :: itemsOf r := rfl

@[simp] lemma itemsOf_append (r s : List (ε ⊕ ι)) :
    itemsOf (r ++ s) = itemsOf r ++ itemsOf s := filterMap_append

@[simp] lemma faultsOf_append (r s : List (ε ⊕ ι)) :
    faultsOf (r ++ s) = faultsOf r ++ faultsOf s := filterMap_append

lemma mem_itemLines_iff {i : ι} {w : ν} : (i, some w) ∈ itemLines ls ↔ .branch i w ∈ ls := by
  rw [itemLines, mem_filterMap]
  constructor
  · rintro ⟨l, hl, hi⟩
    cases l with
    | fault e => cases hi
    | leaf j => cases hi
    | branch j u =>
      cases hi
      exact hl
  · intro hl
    exact ⟨_, hl, rfl⟩

lemma expandLines_congr (h : ∀ i w, .branch i w ∈ ls → rec w = rec' w) :
    expandLines rec ls = expandLines rec' ls := by
  induction ls with
  | nil => rfl
  | cons l ls ih =>
    have hl : expandLine rec l = expandLine rec' l := by
      cases l with
      | fault e => rfl
      | leaf i => rfl
      | branch i w => rw [expandLine, expandLine, h i w mem_cons_self]
    rw [expandLines, expandLines, hl, ih fun i w hw => h i w (mem_cons_of_mem l hw)]

lemma expand_congr (h : ∀ u, Reached lines v u → lines u = lines' u) (n : ℕ) :
    expand lines n v = expand lines' n v := by
  induction n generalizing v with
  | zero => rfl
  | succ n ih =>
    rw [expand, expand, ← h v .refl]
    refine expandLines_congr fun i w hw => ih fun u hwu => h u ?_
    exact .head ⟨i, hw⟩ hwu

/-! ## Faults that one node alone can raise -/

lemma expandLines_faults_filter (hr : expandLines rec ls = some r)
    (hown : (faultLines ls).filter P = []) (own : List ε) (f : ν → ℕ)
    (hrec : ∀ i w b, .branch i w ∈ ls → rec w = some b →
      (faultsOf b).filter P = (List.replicate (f w) own).flatten) :
    (faultsOf r).filter P =
      (List.replicate ((itemLines ls).map fun l => l.2.elim 0 f).sum own).flatten := by
  induction ls generalizing r with
  | nil =>
    cases hr
    rfl
  | cons l ls ih =>
    obtain ⟨a, b, ha, hb, rfl⟩ := (expandLines_cons_eq_some).mp hr
    have htail : ∀ i w b, .branch i w ∈ ls → rec w = some b →
        (faultsOf b).filter P = (List.replicate (f w) own).flatten :=
      fun i w b hw => hrec i w b (mem_cons_of_mem l hw)
    cases l with
    | fault e =>
      cases ha
      have hsplit : (e :: faultLines ls).filter P = [] := hown
      rw [filter_cons] at hsplit
      split at hsplit
      · cases hsplit
      · next hP =>
        have hcons : faultsOf ([.inl e] ++ b) = e :: faultsOf b := rfl
        rw [hcons, filter_cons_of_neg hP]
        exact ih hb hsplit htail
    | leaf i =>
      cases ha
      have hzero : ((itemLines (.leaf i :: ls)).map fun l => l.2.elim 0 f).sum =
          ((itemLines ls).map fun l => l.2.elim 0 f).sum := by
        rw [show itemLines (.leaf i :: ls) = (i, none) :: itemLines ls from rfl, map_cons,
          sum_cons, Option.elim_none, Nat.zero_add]
      rw [hzero, singleton_append, faultsOf_inr]
      exact ih hb hown htail
    | branch i w =>
      obtain ⟨c, hc, rfl⟩ := (expandLine_branch_eq_some).mp ha
      have hsum : ((itemLines (.branch i w :: ls)).map fun l => l.2.elim 0 f).sum =
          f w + ((itemLines ls).map fun l => l.2.elim 0 f).sum := by
        rw [show itemLines (.branch i w :: ls) = (i, some w) :: itemLines ls from rfl,
          map_cons, sum_cons, Option.elim_some]
      rw [hsum, replicate_add, flatten_append, ← ih hb hown htail, ← hrec i w c mem_cons_self hc]
      simp

lemma expandLines_faults_filter_own (hr : expandLines rec ls = some r)
    (hrec : ∀ i w b, .branch i w ∈ ls → rec w = some b → (faultsOf b).filter P = []) :
    (faultsOf r).filter P = (faultLines ls).filter P := by
  induction ls generalizing r with
  | nil =>
    cases hr
    rfl
  | cons l ls ih =>
    obtain ⟨a, b, ha, hb, rfl⟩ := (expandLines_cons_eq_some).mp hr
    have htail := ih hb fun i w b hw => hrec i w b (mem_cons_of_mem l hw)
    cases l with
    | fault e =>
      cases ha
      rw [show faultsOf ([.inl e] ++ b) = e :: faultsOf b from rfl,
        show faultLines (.fault e :: ls) = e :: faultLines ls from rfl,
        filter_cons, filter_cons, htail]
    | leaf i =>
      cases ha
      exact htail
    | branch i w =>
      obtain ⟨c, hc, rfl⟩ := (expandLine_branch_eq_some).mp ha
      rw [faultsOf_append, faultsOf_append, filter_append, filter_append,
        hrec i w c mem_cons_self hc, htail]
      rfl

section Visits

variable [DecidableEq ν]

/-- How often the expansion of a node comes to `u`. -/
def visits (lines : ν → List (Line ν ι ε)) (u : ν) : ℕ → ν → ℕ
  | 0, _ => 0
  | n + 1, v => (if v = u then 1 else 0) +
      ((itemLines (lines v)).map fun l => l.2.elim 0 (visits lines u n)).sum

-- the equations of `visits`, stated once for the lemmas below
attribute [local simp] visits

lemma visits_eq_zero (h : ¬ Reached lines v u) (n : ℕ) : visits lines u n v = 0 := by
  induction n generalizing v with
  | zero => rfl
  | succ n ih =>
    have hvu : v ≠ u := fun hvu => h (hvu ▸ .refl)
    rw [visits, if_neg hvu, Nat.zero_add, sum_eq_zero]
    intro k hk
    obtain ⟨⟨i, w⟩, hw, rfl⟩ := mem_map.mp hk
    cases w with
    | none => rfl
    | some w => exact ih fun hwu => h (.head ⟨i, (mem_itemLines_iff).mp hw⟩ hwu)

lemma visits_pos (hr : expand lines n v = some r) (h : Reached lines v u) :
    0 < visits lines u n v := by
  induction n generalizing v r with
  | zero => cases hr
  | succ n ih =>
    rw [visits]
    rcases Relation.ReflTransGen.cases_head h with rfl | ⟨w, ⟨i, hw⟩, hwu⟩
    · rw [if_pos rfl]
      omega
    · obtain ⟨b, hb⟩ := (exists_expandLines_iff).mp ⟨r, hr⟩ i w hw
      have hpos : 0 < visits lines u n w := ih hb hwu
      have hle := single_le_sum (l := (itemLines (lines v)).map
        fun l => l.2.elim 0 (visits lines u n)) (fun _ _ => Nat.zero_le _) _
        (mem_map.mpr ⟨(i, some w), (mem_itemLines_iff).mpr hw, rfl⟩)
      simp only [Option.elim_some] at hle
      omega

lemma visits_congr (h : ∀ w, Reached lines v w → itemLines (lines w) = itemLines (lines' w))
    (n : ℕ) : visits lines u n v = visits lines' u n v := by
  induction n generalizing v with
  | zero => rfl
  | succ n ih =>
    rw [visits, visits, ← h v .refl]
    congr 2
    refine map_congr_left fun l hl => ?_
    obtain ⟨i, w⟩ := l
    cases w with
    | none => rfl
    | some w => exact ih fun u' hwu => h u' (.head ⟨i, (mem_itemLines_iff).mp hl⟩ hwu)

lemma expand_faults_filter (hr : expand lines n v = some r)
    (honly : ∀ w, Reached lines v w → w ≠ u → (faultLines (lines w)).filter P = []) :
    (faultsOf r).filter P =
      (List.replicate (visits lines u n v) ((faultLines (lines u)).filter P)).flatten := by
  induction n generalizing v r with
  | zero => cases hr
  | succ n ih =>
    by_cases hvu : v = u
    · -- below `u` itself, `u` is not met again: its expansion would not end
      subst hvu
      have hacc : Acc (Child lines) v := (expand_terminates_iff_acc).mp ⟨n + 1, r, hr⟩
      have hzero : ∀ i w, .branch i w ∈ lines v → visits lines v n w = 0 := by
        intro i w hw
        refine visits_eq_zero (fun hwv => ?_) n
        exact not_rel_self_of_acc hacc.transGen
          (Relation.transGen_swap.mp (Relation.TransGen.head' ⟨i, hw⟩ hwv))
      rw [expandLines_faults_filter_own hr fun i w b hw hb => by
        rw [ih hb fun x hx => honly x (.head ⟨i, hw⟩ hx), hzero i w hw, replicate_zero,
          flatten_nil]]
      rw [visits, if_pos rfl, sum_eq_zero, Nat.add_zero, replicate_one, flatten_singleton]
      intro k hk
      obtain ⟨⟨i, w⟩, hw, rfl⟩ := mem_map.mp hk
      cases w with
      | none => rfl
      | some w => exact hzero i w (mem_itemLines_iff.mp hw)
    · rw [visits, if_neg hvu, Nat.zero_add]
      exact expandLines_faults_filter hr (honly v .refl hvu) _ _ fun i w b hw hb =>
        ih hb fun x hx => honly x (.head ⟨i, hw⟩ hx)

end Visits

lemma eq_of_flatten_replicate_eq {α : Type} {m : ℕ} (hm : 0 < m) {xs ys : List α}
    (h : (List.replicate m xs).flatten = (List.replicate m ys).flatten) : xs = ys := by
  have hlen : m * xs.length = m * ys.length := by
    simpa using congrArg List.length h
  obtain ⟨k, rfl⟩ : ∃ k, m = k + 1 := ⟨m - 1, by omega⟩
  rw [replicate_succ, replicate_succ, flatten_cons, flatten_cons] at h
  exact append_inj_left h (Nat.eq_of_mul_eq_mul_left hm hlen)

lemma faultLines_eq_of_expand_faults_eq [DecidableEq ν] {r' : List (ε ⊕ ι)}
    (hr : expand lines n v = some r) (hr' : expand lines' n v = some r')
    (hitems : ∀ w, Reached lines v w → itemLines (lines w) = itemLines (lines' w))
    (honly : ∀ w, Reached lines v w → w ≠ u → (faultLines (lines w)).filter P = [])
    (honly' : ∀ w, Reached lines' v w → w ≠ u → (faultLines (lines' w)).filter P = [])
    (hu : Reached lines v u) (hfaults : faultsOf r = faultsOf r') :
    (faultLines (lines u)).filter P = (faultLines (lines' u)).filter P := by
  refine eq_of_flatten_replicate_eq (visits_pos hr hu) ?_
  rw [← expand_faults_filter hr honly, visits_congr hitems n, hfaults,
    expand_faults_filter hr' honly']

end KubeWaf.Lib
