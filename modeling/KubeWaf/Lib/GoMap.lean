import Mathlib.Data.List.AList

/-!
# Go maps

A map is its entries, at most one for each key. A loop over a Go map visits the entries in an
order that is not specified: any permutation of them.
-/

namespace KubeWaf.Lib

open List

abbrev GoMap (κ α : Type) := AList fun _ : κ => α

namespace GoMap

variable {κ α β : Type}

/-- The loop that deletes the entries whose key satisfies `p`. -/
def deleteWhere (p : κ → Bool) (m : GoMap κ α) : GoMap κ α :=
  ⟨m.entries.filter fun e => !p e.1, m.nodupKeys.sublist filter_sublist⟩

/-- The values in an order in which a loop over the map visits them. -/
def Visits (m : GoMap κ α) (vs : List α) : Prop := vs.Perm (m.entries.map Sigma.snd)

section Lookup

variable [DecidableEq κ] {m : GoMap κ α} {vs : List α}

lemma mem_entries_iff {k : κ} {v : α} :
    (⟨k, v⟩ : Σ _ : κ, α) ∈ m.entries ↔ m.lookup k = some v := by
  have h : v ∈ m.lookup k ↔ (⟨k, v⟩ : Σ _ : κ, α) ∈ m.entries := AList.mem_lookup_iff
  rw [← h, Option.mem_def]

lemma lookup_insert_eq (m : GoMap κ α) (k k' : κ) (v : α) :
    AList.lookup k (AList.insert k' v m) = if k = k' then some v else m.lookup k := by
  split_ifs with h
  · rw [h, AList.lookup_insert]
  · exact AList.lookup_insert_ne h

lemma lookup_erase_eq (m : GoMap κ α) (k k' : κ) :
    AList.lookup k (AList.erase k' m) = if k = k' then none else m.lookup k := by
  split_ifs with h
  · rw [h, AList.lookup_erase]
  · exact AList.lookup_erase_ne h

@[simp] lemma lookup_deleteWhere (p : κ → Bool) (m : GoMap κ α) (k : κ) :
    (deleteWhere p m).lookup k = if p k then none else m.lookup k := by
  apply Option.ext
  intro v
  rw [← mem_entries_iff, deleteWhere, mem_filter, mem_entries_iff]
  by_cases hp : p k
  · simp [hp]
  · simp [hp]

lemma mem_of_visits (h : m.Visits vs) {v : α} : v ∈ vs ↔ ∃ k, m.lookup k = some v := by
  rw [h.mem_iff, mem_map]
  constructor
  · rintro ⟨⟨k, w⟩, hmem, rfl⟩
    exact ⟨k, mem_entries_iff.mp hmem⟩
  · rintro ⟨k, hk⟩
    exact ⟨⟨k, v⟩, mem_entries_iff.mpr hk, rfl⟩

lemma lookup_foldl_insert (key : α → κ) (hnodup : (vs.map key).Nodup) (m : GoMap κ α) (k : κ)
    (v : α) :
    (vs.foldl (fun m v => m.insert (key v) v) m).lookup k = some v ↔
      (v ∈ vs ∧ key v = k) ∨ (k ∉ vs.map key ∧ m.lookup k = some v) := by
  induction vs generalizing m with
  | nil => simp
  | cons w vs ih =>
    obtain ⟨hhead, htail⟩ := nodup_cons.mp hnodup
    rw [foldl_cons, ih htail, map_cons, mem_cons, mem_cons]
    by_cases hk : k = key w
    · rw [hk, AList.lookup_insert, Option.some.injEq]
      constructor
      · rintro (⟨hmem, hkey⟩ | ⟨_, rfl⟩)
        · exact .inl ⟨.inr hmem, hkey⟩
        · exact .inl ⟨.inl rfl, rfl⟩
      · rintro (⟨rfl | hmem, hkey⟩ | ⟨hnot, _⟩)
        · exact .inr ⟨hhead, rfl⟩
        · exact .inl ⟨hmem, hkey⟩
        · exact absurd (.inl rfl) hnot
    · rw [AList.lookup_insert_ne hk]
      constructor
      · rintro (⟨hmem, hkey⟩ | ⟨hnot, hv⟩)
        · exact .inl ⟨.inr hmem, hkey⟩
        · exact .inr ⟨fun hc => hc.elim hk hnot, hv⟩
      · rintro (⟨rfl | hmem, hkey⟩ | ⟨hnot, hv⟩)
        · exact absurd hkey.symm hk
        · exact .inl ⟨hmem, hkey⟩
        · exact .inr ⟨fun hc => hnot (.inr hc), hv⟩

lemma exists_visits_cons {k : κ} {v : α} (h : m.lookup k = some v) : ∃ vs, m.Visits (v :: vs) := by
  classical
  have hmem : v ∈ m.entries.map Sigma.snd :=
    (mem_of_visits (List.Perm.refl _)).mpr ⟨k, h⟩
  exact ⟨_, (perm_cons_erase hmem).symm⟩

/-- Whatever `f` finds in the entries is the same. -/
def Agree (m : GoMap κ α) (f : α → Option β) : Prop :=
  ∀ v v', (∃ k, m.lookup k = some v) → (∃ k, m.lookup k = some v') →
    ∀ b ∈ f v, ∀ b' ∈ f v', b = b'

lemma Agree.findSome?_eq {f : α → Option β} (h : m.Agree f) {vs' : List α} (hvs : m.Visits vs)
    (hvs' : m.Visits vs') : vs.findSome? f = vs'.findSome? f := by
  have hmem : ∀ v, v ∈ vs ↔ v ∈ vs' := fun v => (mem_of_visits hvs).trans (mem_of_visits hvs').symm
  cases hf : vs.findSome? f with
  | none =>
    rw [findSome?_eq_none_iff] at hf
    exact (findSome?_eq_none_iff.mpr fun v hv => hf v ((hmem v).mpr hv)).symm
  | some b =>
    obtain ⟨v, hv, hb⟩ := exists_of_findSome?_eq_some hf
    cases hf' : vs'.findSome? f with
    | none => rw [findSome?_eq_none_iff.mp hf' v ((hmem v).mp hv)] at hb; cases hb
    | some b' =>
      obtain ⟨v', hv', hb'⟩ := exists_of_findSome?_eq_some hf'
      rw [h v v' ((mem_of_visits hvs).mp hv) ((mem_of_visits hvs').mp hv') b hb b' hb']

end Lookup

end GoMap

end KubeWaf.Lib
