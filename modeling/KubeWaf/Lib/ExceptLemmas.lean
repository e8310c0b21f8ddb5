import Mathlib.Data.List.Forall2

/-!
# Inverting computations in `Except`

From a computation that ended in `.ok`, the values its steps produced.
-/

namespace KubeWaf.Lib

open List

variable {ε α β : Type} {f g : α → Except ε β} {l : List α} {x : Except ε α} {r : List β} {b : β}
  {a : α} {R : α → β → Prop}

lemma bind_eq_ok : (x >>= f) = .ok b ↔ ∃ a, x = .ok a ∧ f a = .ok b := by
  cases x with
  | error e => simp [Bind.bind, Except.bind]
  | ok a => simp [Bind.bind, Except.bind]

lemma bind_eq_error {e : ε} :
    (x >>= f) = .error e ↔ x = .error e ∨ ∃ a, x = .ok a ∧ f a = .error e := by
  cases x with
  | error e => simp [Bind.bind, Except.bind]
  | ok a => simp [Bind.bind, Except.bind]

lemma pure_eq_ok {b : α} : (pure a : Except ε α) = .ok b ↔ a = b := by
  simp [pure, Except.pure]

lemma map_eq_ok {f : α → β} : x.map f = .ok b ↔ ∃ a, x = .ok a ∧ f a = b := by
  cases x with
  | error e => simp [Except.map]
  | ok a => simp [Except.map]

lemma mapError_eq_ok {ε' : Type} {f : ε → ε'} : x.mapError f = .ok a ↔ x = .ok a := by
  cases x with
  | error e => simp [Except.mapError]
  | ok a => simp [Except.mapError]

lemma toOption_eq_some : x.toOption = some a ↔ x = .ok a := by
  cases x with
  | error e => simp [Except.toOption]
  | ok b => simp [Except.toOption]

lemma mapM_eq_ok : l.mapM f = .ok r ↔ List.Forall₂ (fun a b => f a = .ok b) l r := by
  induction l generalizing r with
  | nil =>
    rw [mapM_nil, pure_eq_ok, forall₂_nil_left_iff]
    exact eq_comm
  | cons a l ih =>
    rw [mapM_cons, bind_eq_ok, forall₂_cons_left_iff]
    constructor
    · rintro ⟨b, hb, h⟩
      obtain ⟨r', hr', h⟩ := (bind_eq_ok).mp h
      exact ⟨b, r', hb, ih.mp hr', (pure_eq_ok.mp h).symm⟩
    · rintro ⟨b, r', hb, hr', rfl⟩
      exact ⟨b, hb, (bind_eq_ok).mpr ⟨r', ih.mpr hr', (pure_eq_ok).mpr rfl⟩⟩

lemma map_eq_iff_of_mapM {g : β → α} {P : α → Prop}
    (hf : ∀ a ∈ l, ∀ b, f a = .ok b → (g b = a ↔ P a)) (h : l.mapM f = .ok r) :
    r.map g = l ↔ ∀ a ∈ l, P a := by
  rw [mapM_eq_ok] at h
  induction h with
  | nil => simp
  | @cons a b l r hab _ ih =>
    rw [map_cons, List.cons.injEq, forall_mem_cons, hf a mem_cons_self b hab,
      ih fun a' ha' => hf a' (mem_cons_of_mem _ ha')]

lemma exists_of_mapM_eq_error {e : ε} (h : l.mapM f = .error e) : ∃ a ∈ l, f a = .error e := by
  induction l with
  | nil => exact absurd h (by simp [pure, Except.pure])
  | cons a l ih =>
    rw [mapM_cons, bind_eq_error] at h
    rcases h with h | ⟨b, _, h⟩
    · exact ⟨a, mem_cons_self, h⟩
    · rcases (bind_eq_error).mp h with h | ⟨r, _, h⟩
      · obtain ⟨a', ha', hf⟩ := ih h
        exact ⟨a', mem_cons_of_mem _ ha', hf⟩
      · exact absurd h (by simp [pure, Except.pure])

lemma exists_of_forall₂ (h : List.Forall₂ R l r) (hb : b ∈ r) : ∃ a ∈ l, R a b := by
  induction h with
  | nil => cases hb
  | cons hab _ ih =>
    rcases mem_cons.mp hb with rfl | hb
    · exact ⟨_, mem_cons_self, hab⟩
    · obtain ⟨a, ha, hR⟩ := ih hb
      exact ⟨a, mem_cons_of_mem _ ha, hR⟩

lemma exists_append_of_forall₂ {l₁ l₂ : List α} {l : List β} (h : List.Forall₂ R (l₁ ++ l₂) l) :
    ∃ l₁' l₂', l = l₁' ++ l₂' ∧ List.Forall₂ R l₁ l₁' ∧ List.Forall₂ R l₂ l₂' := by
  induction l₁ generalizing l with
  | nil => exact ⟨[], l, rfl, .nil, h⟩
  | cons a l₁ ih =>
    cases h with
    | cons ha h =>
      obtain ⟨l₁', l₂', rfl, h₁, h₂⟩ := ih h
      exact ⟨_ :: l₁', l₂', rfl, .cons ha h₁, h₂⟩

lemma exists_of_mem_mapM (h : l.mapM f = .ok r) (hb : b ∈ r) : ∃ a ∈ l, f a = .ok b :=
  exists_of_forall₂ (R := fun a b => f a = .ok b) (mapM_eq_ok.mp h) hb

lemma exists_mapM_eq_ok_iff : (∃ r, l.mapM f = .ok r) ↔ ∀ a ∈ l, ∃ b, f a = .ok b := by
  induction l with
  | nil => simp [pure, Except.pure]
  | cons a l ih =>
    simp only [mapM_cons, bind_eq_ok, pure_eq_ok, forall_mem_cons, ← ih]
    constructor
    · rintro ⟨_, b, hb, r, hr, rfl⟩
      exact ⟨⟨b, hb⟩, r, hr⟩
    · rintro ⟨⟨b, hb⟩, r, hr⟩
      exact ⟨b :: r, b, hb, r, hr, rfl⟩

lemma exists_of_mem_of_mapM (hf : l.mapM f = .ok r) (hg : l.mapM g = .ok r) (ha : a ∈ l) :
    ∃ b, f a = .ok b ∧ g a = .ok b := by
  have hall := (mapM_eq_ok).mp hf
  have hall' := (mapM_eq_ok).mp hg
  clear hf hg
  induction hall with
  | nil => cases ha
  | cons hab hall ih =>
    obtain ⟨hgab, hall'⟩ := forall₂_cons.mp hall'
    rcases mem_cons.mp ha with rfl | ha
    · exact ⟨_, hab, hgab⟩
    · exact ih ha hall'

lemma mapM_congr_of_mem (h : ∀ a ∈ l, f a = g a) : l.mapM f = l.mapM g := by
  induction l with
  | nil => rfl
  | cons a l ih =>
    rw [mapM_cons, mapM_cons, h a mem_cons_self,
      ih fun b hb => h b (mem_cons_of_mem a hb)]

lemma mapM_mapM_eq_ok {γ : Type} {g : β → Except ε γ} {r : List γ} :
    (∃ bs, l.mapM f = .ok bs ∧ bs.mapM g = .ok r) ↔ (l.mapM fun a => f a >>= g) = .ok r := by
  simp only [mapM_eq_ok, bind_eq_ok]
  constructor
  · rintro ⟨bs, hf, hg⟩
    induction hf generalizing r with
    | nil =>
      cases hg
      exact .nil
    | cons hab hf ih =>
      cases hg with
      | cons hbc hg => exact .cons ⟨_, hab, hbc⟩ (ih hg)
  · intro h
    induction h with
    | nil => exact ⟨[], .nil, .nil⟩
    | cons hac h ih =>
      obtain ⟨b, hab, hbc⟩ := hac
      obtain ⟨bs, hf, hg⟩ := ih
      exact ⟨b :: bs, .cons hab hf, .cons hbc hg⟩

lemma option_mapM_eq_ok {o : Option α} {r : Option β} :
    o.mapM f = .ok r ↔ (o = none ∧ r = none) ∨ ∃ a b, o = some a ∧ f a = .ok b ∧ r = some b := by
  cases o with
  | none => simp [Option.mapM_none, pure, Except.pure, eq_comm]
  | some a =>
    cases h : f a with
    | error e => simp [Option.mapM_some, h, Functor.map, Except.map]
    | ok b => simp [Option.mapM_some, h, Functor.map, Except.map, eq_comm]

lemma eq_map_of_mapM_eq_ok {g : α → β} (hg : ∀ a b, f a = .ok b → b = g a) (h : l.mapM f = .ok r) :
    r = l.map g := by
  rw [mapM_eq_ok] at h
  induction h with
  | nil => rfl
  | cons hhead _ ih => rw [map_cons, ← ih, hg _ _ hhead]

lemma exists_mapM_eq_ok_of_forall {γ : Type} {g : β → γ} {g' : α → γ}
    (h : ∀ a ∈ l, ∃ b, f a = .ok b ∧ g b = g' a) : ∃ r, l.mapM f = .ok r ∧ r.map g = l.map g' := by
  induction l with
  | nil => exact ⟨[], rfl, rfl⟩
  | cons a l ih =>
    obtain ⟨b, hb, hg⟩ := h a mem_cons_self
    obtain ⟨r, hr, hmap⟩ := ih fun a' ha' => h a' (mem_cons_of_mem a ha')
    refine ⟨b :: r, ?_, by rw [map_cons, map_cons, hg, hmap]⟩
    rw [mapM_cons, hb, hr]
    rfl

end KubeWaf.Lib
