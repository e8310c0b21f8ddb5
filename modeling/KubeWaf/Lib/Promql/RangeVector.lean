import KubeWaf.Lib.Promql.Series
import Mathlib

/-!
# Range functions and the union of vectors

A range function maps the samples that a series has in a range to a value, series by series, and
`absent_over_time` the absence of all series to one element. The operator `or` drops the elements
of its right side whose labels, apart from the metric, the left side has. So the values on classes of
series can be put together by `or` if the class of a series shows in its other labels.
-/

namespace KubeWaf.Lib.Promql

open List

/-- A time series with samples of some type. -/
structure TimeSeries (σ : Type) where
  labels : Series
  samples : σ

/-- The elements of a vector, with their labels. -/
abbrev InstantVector (V : Type) := Set (Series × V)

def metricLabel : List Char := "__name__".toList

def withoutName (s : Series) : Series := fun label => if label = metricLabel then [] else s label

/-- The labels of the result of a function that keeps the metric or not. -/
def resultLabels (keepsName : Bool) (s : Series) : Series := if keepsName then s else withoutName s

/-- What is given of the functions over ranges: the value on the samples of a series, if there is
one, whether the series has samples in the range, and whether the result keeps the metric. The
arguments are the names of the function and the texts of the range and of the other arguments. -/
structure RangeSemantics (σ V : Type) where
  value : (func range args : List Char) → σ → Option V
  present : (range : List Char) → σ → Bool
  keepsName : (func : List Char) → Bool
  one : V

section
variable {σ V : Type}

/-- A series of a class has a value. -/
def Counts (value : σ → Option V) (p : Series → Prop) (x : TimeSeries σ) : Prop :=
  p x.labels ∧ (value x.samples).isSome

/-- The results of two series have the same labels. -/
def Clash (value : σ → Option V) (out : Series → Series) (p : Series → Prop)
    (data : Set (TimeSeries σ)) : Prop :=
  ∃ x ∈ data, ∃ y ∈ data, x ≠ y ∧ Counts value p x ∧ Counts value p y ∧ out x.labels = out y.labels

def valuesOf (value : σ → Option V) (out : Series → Series) (p : Series → Prop)
    (data : Set (TimeSeries σ)) : InstantVector V :=
  {e | ∃ x ∈ data, p x.labels ∧ value x.samples = some e.2 ∧ e.1 = out x.labels}

open Classical in
/-- The values of the series of a class. A clash makes the query fail. -/
noncomputable def mapSeries (value : σ → Option V) (out : Series → Series) (p : Series → Prop)
    (data : Set (TimeSeries σ)) : Option (InstantVector V) :=
  if Clash value out p data then none else some (valuesOf value out p data)

open Classical in
/-- What `absent_over_time` makes of the series of a class. -/
noncomputable def absentSeries (present : σ → Bool) (one : V) (labels : Series) (p : Series → Prop)
    (data : Set (TimeSeries σ)) : InstantVector V :=
  if ∃ x ∈ data, p x.labels ∧ present x.samples = true then ∅ else {(labels, one)}

/-- `a or b`. -/
def orVector (a b : InstantVector V) : InstantVector V :=
  a ∪ {e ∈ b | ∀ e' ∈ a, withoutName e'.1 ≠ withoutName e.1}

/-- A union of several vectors; it fails with any of them. -/
def orVectors : List (Option (InstantVector V)) → Option (InstantVector V)
  | [] => some ∅
  | v :: vs => vs.foldl (Option.map₂ orVector) v

/-- A class of series shows in their labels apart from the metric. -/
def ShowsInLabels (p : Series → Prop) : Prop :=
  ∀ s s' : Series, withoutName s = withoutName s' → (p s ↔ p s')

/-- The labels of a result are those of the series, with or without the metric. -/
def KeepsLabels (out : Series → Series) : Prop := ∀ s, withoutName (out s) = withoutName s

variable {value : σ → Option V} {out : Series → Series} {p a b : Series → Prop}
  {data : Set (TimeSeries σ)}

lemma ShowsInLabels.or (ha : ShowsInLabels a) (hb : ShowsInLabels b) :
    ShowsInLabels fun s => a s ∨ b s :=
  fun s s' h => or_congr (ha s s' h) (hb s s' h)

lemma ShowsInLabels.of_out (hout : KeepsLabels out) (ha : ShowsInLabels a) {s s' : Series}
    (h : withoutName (out s) = withoutName (out s')) : a s ↔ a s' :=
  ha s s' (by rw [← hout s, ← hout s', h])

lemma clash_or (hout : KeepsLabels out) (ha : ShowsInLabels a) (hb : ShowsInLabels b) :
    Clash value out (fun s => p s ∧ (a s ∨ b s)) data ↔
      Clash value out (fun s => p s ∧ a s) data ∨ Clash value out (fun s => p s ∧ b s) data := by
  constructor
  · rintro ⟨x, hx, y, hy, hne, ⟨⟨hpx, hclass⟩, hvx⟩, ⟨⟨hpy, _⟩, hvy⟩, heq⟩
    have hlabels := congrArg withoutName heq
    rcases hclass with hax | hbx
    · exact .inl ⟨x, hx, y, hy, hne, ⟨⟨hpx, hax⟩, hvx⟩, ⟨⟨hpy, (ha.of_out hout hlabels).mp hax⟩, hvy⟩, heq⟩
    · exact .inr ⟨x, hx, y, hy, hne, ⟨⟨hpx, hbx⟩, hvx⟩, ⟨⟨hpy, (hb.of_out hout hlabels).mp hbx⟩, hvy⟩, heq⟩
  · rintro (⟨x, hx, y, hy, hne, hcx, hcy, heq⟩ | ⟨x, hx, y, hy, hne, hcx, hcy, heq⟩)
    · exact ⟨x, hx, y, hy, hne, ⟨⟨hcx.1.1, .inl hcx.1.2⟩, hcx.2⟩, ⟨⟨hcy.1.1, .inl hcy.1.2⟩, hcy.2⟩, heq⟩
    · exact ⟨x, hx, y, hy, hne, ⟨⟨hcx.1.1, .inr hcx.1.2⟩, hcx.2⟩, ⟨⟨hcy.1.1, .inr hcy.1.2⟩, hcy.2⟩, heq⟩

lemma orVector_valuesOf (hout : KeepsLabels out) (ha : ShowsInLabels a) :
    orVector (valuesOf value out (fun s => p s ∧ a s) data)
        (valuesOf value out (fun s => p s ∧ b s) data)
      = valuesOf value out (fun s => p s ∧ (a s ∨ b s)) data := by
  ext e
  constructor
  · rintro (⟨x, hx, hclass, hvalue⟩ | ⟨⟨x, hx, hclass, hvalue⟩, _⟩)
    · exact ⟨x, hx, ⟨hclass.1, .inl hclass.2⟩, hvalue⟩
    · exact ⟨x, hx, ⟨hclass.1, .inr hclass.2⟩, hvalue⟩
  · rintro ⟨x, hx, ⟨hp, hclass⟩, hvalue⟩
    by_cases hax : a x.labels
    · exact .inl ⟨x, hx, ⟨hp, hax⟩, hvalue⟩
    · refine .inr ⟨⟨x, hx, ⟨hp, hclass.resolve_left hax⟩, hvalue⟩, ?_⟩
      rintro e' ⟨y, _, ⟨_, hay⟩, _, heq⟩ hlabels
      rw [heq, hvalue.2] at hlabels
      exact hax ((ha.of_out hout hlabels).mp hay)

lemma map₂_orVector_mapSeries (hout : KeepsLabels out) (ha : ShowsInLabels a)
    (hb : ShowsInLabels b) :
    Option.map₂ orVector (mapSeries value out (fun s => p s ∧ a s) data)
        (mapSeries value out (fun s => p s ∧ b s) data)
      = mapSeries value out (fun s => p s ∧ (a s ∨ b s)) data := by
  have hclash : Clash value out (fun s => p s ∧ (a s ∨ b s)) data ↔
      Clash value out (fun s => p s ∧ a s) data ∨ Clash value out (fun s => p s ∧ b s) data :=
    clash_or hout ha hb
  simp only [mapSeries]
  by_cases hca : Clash value out (fun s => p s ∧ a s) data
  · rw [if_pos hca, if_pos (hclash.mpr (.inl hca)), Option.map₂_none_left]
  by_cases hcb : Clash value out (fun s => p s ∧ b s) data
  · rw [if_pos hcb, if_pos (hclash.mpr (.inr hcb)), Option.map₂_none_right]
  rw [if_neg hca, if_neg hcb, if_neg fun h => (hclash.mp h).elim hca hcb, Option.map₂_some_some,
    orVector_valuesOf hout ha]

lemma orVectors_mapSeries {κ : Type} {keys : List κ} {cls : κ → Series → Prop} (hkeys : keys ≠ [])
    (hout : KeepsLabels out) (hcls : ∀ k, ShowsInLabels (cls k)) :
    orVectors (keys.map fun k => mapSeries value out (fun s => p s ∧ cls k s) data)
      = mapSeries value out (fun s => p s ∧ ∃ k ∈ keys, cls k s) data := by
  obtain ⟨k, keys, rfl⟩ := exists_cons_of_ne_nil hkeys
  rw [map_cons, orVectors]
  have hrun : ∀ (seen : Series → Prop), ShowsInLabels seen →
      (keys.map fun k => mapSeries value out (fun s => p s ∧ cls k s) data).foldl
          (Option.map₂ orVector) (mapSeries value out (fun s => p s ∧ seen s) data)
        = mapSeries value out (fun s => p s ∧ (seen s ∨ ∃ k ∈ keys, cls k s)) data := by
    clear hkeys
    induction keys with
    | nil =>
      intro seen _
      simp
    | cons k' keys ih =>
      intro seen hseen
      rw [map_cons, foldl_cons, map₂_orVector_mapSeries hout hseen (hcls k'),
        ih _ (hseen.or (hcls k'))]
      simp [or_assoc]
  rw [hrun (cls k) (hcls k)]
  simp

lemma mapSeries_congr {p' : Series → Prop}
    (h : ∀ x ∈ data, (value x.samples).isSome → (p x.labels ↔ p' x.labels)) :
    mapSeries value out p data = mapSeries value out p' data := by
  have hcounts : ∀ x ∈ data, (Counts value p x ↔ Counts value p' x) := fun x hx =>
    and_congr_left (h x hx)
  have hclash : Clash value out p data ↔ Clash value out p' data := by
    simp only [Clash]
    grind
  have hvalues : valuesOf value out p data = valuesOf value out p' data := by
    ext e
    constructor
    · rintro ⟨x, hx, hp, hvalue, hout⟩
      exact ⟨x, hx, (h x hx (Option.isSome_of_eq_some hvalue)).mp hp, hvalue, hout⟩
    · rintro ⟨x, hx, hp, hvalue, hout⟩
      exact ⟨x, hx, (h x hx (Option.isSome_of_eq_some hvalue)).mpr hp, hvalue, hout⟩
  by_cases hc : Clash value out p' data
  · rw [mapSeries, mapSeries, if_pos hc, if_pos (hclash.mpr hc)]
  · rw [mapSeries, mapSeries, if_neg hc, if_neg fun h => hc (hclash.mp h), hvalues]

lemma mapSeries_singleton {x : TimeSeries σ} {v : V} (hp : p x.labels)
    (hv : value x.samples = some v) :
    mapSeries value out p {x} = some {(out x.labels, v)} := by
  have hclash : ¬Clash value out p {x} := by
    rintro ⟨y, hy, z, hz, hne, _⟩
    exact hne ((Set.mem_singleton_iff.mp hy).trans (Set.mem_singleton_iff.mp hz).symm)
  have hvalues : valuesOf value out p {x} = {(out x.labels, v)} := by
    ext ⟨s, w⟩
    constructor
    · rintro ⟨y, hy, _, hw, hs⟩
      obtain rfl : y = x := hy
      rw [hv] at hw
      exact Prod.ext hs (Option.some.inj hw).symm
    · intro heq
      obtain ⟨rfl, rfl⟩ := Prod.mk.inj (Set.mem_singleton_iff.mp heq)
      exact ⟨x, rfl, hp, hv, rfl⟩
  rw [mapSeries, if_neg hclash, hvalues]

lemma mapSeries_empty (value : σ → Option V) (out : Series → Series) (p : Series → Prop) :
    mapSeries value out p ∅ = some ∅ := by
  have hclash : ¬Clash value out p (∅ : Set (TimeSeries σ)) := fun ⟨_, hx, _⟩ => hx
  have hvalues : valuesOf value out p (∅ : Set (TimeSeries σ)) = ∅ :=
    Set.eq_empty_iff_forall_notMem.mpr fun _ ⟨_, hx, _⟩ => hx
  rw [mapSeries, if_neg hclash, hvalues]

lemma mapSeries_sep (q : Series → Prop) :
    mapSeries value out p {x ∈ data | q x.labels} = mapSeries value out (fun s => p s ∧ q s) data := by
  have hclash : Clash value out p {x ∈ data | q x.labels} ↔
      Clash value out (fun s => p s ∧ q s) data := by
    simp only [Clash, Counts, Set.mem_sep_iff]
    grind
  have hvalues : valuesOf value out p {x ∈ data | q x.labels}
      = valuesOf value out (fun s => p s ∧ q s) data := by
    ext e
    simp only [valuesOf, Set.mem_sep_iff]
    constructor
    · rintro ⟨x, ⟨hx, hq⟩, hp, hvalue⟩
      exact ⟨x, hx, ⟨hp, hq⟩, hvalue⟩
    · rintro ⟨x, hx, ⟨hp, hq⟩, hvalue⟩
      exact ⟨x, ⟨hx, hq⟩, hp, hvalue⟩
  by_cases hc : Clash value out (fun s => p s ∧ q s) data
  · rw [mapSeries, mapSeries, if_pos hc, if_pos (hclash.mpr hc)]
  · rw [mapSeries, mapSeries, if_neg hc, if_neg fun h => hc (hclash.mp h), hvalues]

lemma exists_mem_of_mem_orVectors {vs : List (InstantVector V)} {v : InstantVector V}
    {e : Series × V} (h : orVectors (vs.map some) = some v) (he : e ∈ v) : ∃ v' ∈ vs, e ∈ v' := by
  cases vs with
  | nil =>
    rw [← Option.some.inj h] at he
    exact absurd he (Set.notMem_empty e)
  | cons v₀ vs =>
    rw [map_cons, orVectors] at h
    induction vs generalizing v₀ with
    | nil =>
      rw [← Option.some.inj h] at he
      exact ⟨v₀, mem_cons_self, he⟩
    | cons v₁ vs ih =>
      rw [map_cons, foldl_cons, Option.map₂_some_some] at h
      obtain ⟨v', hv', he'⟩ := ih _ h
      rcases mem_cons.mp hv' with rfl | hv'
      · rcases he' with he' | ⟨he', _⟩
        · exact ⟨v₀, mem_cons_self, he'⟩
        · exact ⟨v₁, by simp, he'⟩
      · exact ⟨v', by simp [hv'], he'⟩

end

/-! ## Calls -/

/-- The call of a range function on a selector with a range. -/
structure RangeCall where
  func : List Char
  selector : Selector
  range : List Char
  args : List Char

def RangeCall.text (isPrint : ℕ → Bool) (call : RangeCall) : List Char :=
  call.func ++ '(' :: (call.selector.text isPrint ++
    ('[' :: (call.range ++ ']' :: (call.args ++ [')']))))

/-- One round of the loop that finds the labels of `absent_over_time`: an equality sets its label
unless the label has been set before, and any other matcher takes it away. -/
def absentStep (st : Series × List (List Char)) (m : Matcher) : Series × List (List Char) :=
  if m.name = metricLabel then st
  else if m.op = .eq ∧ m.name ∉ st.2 then (Function.update st.1 m.name m.value, m.name :: st.2)
  else (Function.update st.1 m.name [], st.2)

def absentLabels (sel : Selector) : Series :=
  (sel.matchers.foldl absentStep (fun _ => [], [])).1

section
variable {σ V : Type}

/-- The value of a call on time series. -/
noncomputable def RangeCall.eval (sem : RangeSemantics σ V) (regex : List Char → List Char → Bool)
    (call : RangeCall) (data : Set (TimeSeries σ)) : Option (InstantVector V) :=
  if call.func = "absent_over_time".toList then
    some (absentSeries (sem.present call.range) sem.one (absentLabels call.selector)
      (call.selector.Selects regex) data)
  else
    mapSeries (sem.value call.func call.range call.args)
      (resultLabels (sem.keepsName call.func)) (call.selector.Selects regex) data

lemma keepsLabels_resultLabels (keepsName : Bool) : KeepsLabels (resultLabels keepsName) := by
  intro s
  cases keepsName with
  | true => rfl
  | false =>
    funext label
    simp only [resultLabels, Bool.false_eq_true, if_false, withoutName]
    split_ifs <;> rfl

lemma absentLabels_of_notMem {ms : List Matcher} {label : List Char}
    (h : ∀ m ∈ ms, m.name ≠ label) (st : Series × List (List Char)) :
    (ms.foldl absentStep st).1 label = st.1 label := by
  induction ms generalizing st with
  | nil => rfl
  | cons m ms ih =>
    rw [foldl_cons, ih fun m' hm' => h m' (mem_cons_of_mem _ hm')]
    have hne : label ≠ m.name := (h m mem_cons_self).symm
    rw [absentStep]
    split_ifs
    · rfl
    · exact Function.update_of_ne hne _ _
    · exact Function.update_of_ne hne _ _

lemma absentLabels_of_first {metric label v : List Char} {ms : List Matcher}
    (hlabel : label ≠ metricLabel) (h : ∀ m ∈ ms, m.name ≠ label) :
    absentLabels ⟨metric, ⟨label, .eq, v⟩ :: ms⟩ label = v := by
  rw [absentLabels, foldl_cons, absentLabels_of_notMem h, absentStep, if_neg hlabel,
    if_pos ⟨rfl, not_mem_nil⟩]
  exact Function.update_self _ _ _

end

end KubeWaf.Lib.Promql
