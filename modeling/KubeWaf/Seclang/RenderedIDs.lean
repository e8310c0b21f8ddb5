import KubeWaf.Seclang.IDAllocation
import KubeWaf.Seclang.Render

/-!
# The ids that are rendered

The ids that `allocateIDs` has returned once stay: with them in the status, it finds one for every
entry without the pool. `applyAssignedIDs` of `internal/seclang/render.go` writes them into a deep
copy of the SecRule, which is why it is a function here.
-/

namespace KubeWaf.Seclang

open Lib List

section
variable {σ : Type} {client : PoolClient σ} {sr r : StoredRule} {used used' : Finset Int}
  {s s' : σ}

lemma resolveEntries_fixed (client : PoolClient σ) (s : σ) (used : Finset Int) {todo : List Int}
    {entries : List (Int × IDSource)} (hlength : entries.length = todo.length) {k : ℕ}
    (h : ∀ (i : ℕ) (m : Int), todo[i]? = some m → fixedID sr m (k + i) = entries[i]?) :
    ∃ used', resolveEntries client sr todo k used s = (.ok entries, used', s) := by
  induction todo generalizing k entries used with
  | nil =>
    obtain rfl := length_eq_zero_iff.mp hlength
    exact ⟨used, rfl⟩
  | cons m todo ih =>
    cases entries with
    | nil => cases hlength
    | cons entry entries =>
      have hentry : fixedID sr m k = some entry := h 0 m rfl
      have hrest : ∀ (i : ℕ) (m' : Int), todo[i]? = some m' →
          fixedID sr m' (k + 1 + i) = entries[i]? := by
        intro i m' hm'
        rw [show k + 1 + i = k + (i + 1) from by omega]
        exact h (i + 1) m' hm'
      obtain ⟨used', hrun⟩ := ih (insert entry.1 used) (Nat.succ.inj hlength) hrest
      exact ⟨used', by simp [resolveEntries, resolveOneID, hentry, hrun]⟩

lemma fixedID_of_resolved {m : Int} {i : ℕ} {entry : Int × IDSource}
    (hstatus : r.status.assignedIDs[i]? = some entry.1)
    (h : fixedID sr m i = some entry ∨ fixedID sr m i = none ∧ entry.2 = .auto ∧ 0 < entry.1) :
    fixedID r m i = some entry := by
  obtain ⟨id, source⟩ := entry
  by_cases hm : 0 < m
  · simp only [fixedID, if_pos hm] at h ⊢
    exact h.resolve_right (by simp)
  · have hkept : 0 < id ∧ source = .auto := by
      obtain hfixed | ⟨-, hauto, hpos⟩ := h
      · obtain ⟨hpos, ⟨-, rfl⟩ | ⟨hauto, -⟩⟩ := fixedID_eq_some hfixed
        · exact absurd hpos hm
        · exact ⟨hpos, hauto⟩
      · exact ⟨hpos, hauto⟩
    rw [fixedID, if_neg hm, stickyID, hstatus, Option.filter_some, decide_eq_true hkept.1, hkept.2]
    rfl

/-! ## The ids in the copy -/

lemma metaID_withAssignedID (metadata : Option SecRuleMetadata) {id : Int}
    (h : 0 < metaID metadata → id = metaID metadata) :
    metaID (some (withAssignedID metadata id)) = id := by
  cases metadata with
  | none => rfl
  | some m =>
    simp only [metaID, withAssignedID, Option.getD_some] at h ⊢
    split_ifs with hm
    · rfl
    · exact (h (by omega)).symm

lemma map_metaID_assignBagIDs {rules : List SecLangSecRule} {ids : List Int}
    (hlength : ids.length = rules.length) (hpos : ∀ id ∈ ids, 0 < id)
    (hexplicit : ∀ (i : ℕ) (id : Int) (rule : SecLangSecRule), ids[i]? = some id →
      rules[i]? = some rule → 0 < metaID rule.metadata → id = metaID rule.metadata) :
    (assignBagIDs rules ids).map (fun rule => metaID rule.metadata) = ids := by
  induction rules generalizing ids with
  | nil => exact (length_eq_zero_iff.mp hlength).symm
  | cons rule rules ih =>
    cases ids with
    | nil => cases hlength
    | cons id ids =>
      have hid := hpos id mem_cons_self
      rw [assignBagIDs, if_neg (by omega), map_cons,
        metaID_withAssignedID _ (hexplicit 0 id rule rfl rfl),
        ih (Nat.succ.inj hlength) (fun y hy => hpos y (mem_cons_of_mem id hy))
          (fun i => hexplicit (i + 1))]

lemma entryIDs_applyAssignedIDs {rule : SecRule} {ids given : List Int}
    (hgiven : (if given.isEmpty then rule.status.assignedIDs else given) = ids)
    (hlength : ids.length = rule.spec.entryIDs.length) (hpos : ∀ id ∈ ids, 0 < id)
    (hexplicit : ∀ (i : ℕ) (id m : Int), ids[i]? = some id → rule.spec.entryIDs[i]? = some m →
      0 < m → id = m) : (applyAssignedIDs rule given).spec.entryIDs = ids := by
  rw [applyAssignedIDs, hgiven]
  cases ids with
  | nil => exact length_eq_zero_iff.mp hlength.symm
  | cons id ids =>
    have hid := hpos id mem_cons_self
    by_cases hform : rule.spec.isSingleRuleForm = true
    · have hentries : rule.spec.entryIDs = [metaID rule.spec.metadata] := if_pos hform
      rw [hentries] at hlength hexplicit
      obtain rfl := length_eq_zero_iff.mp (Nat.succ.inj hlength)
      simp only [if_pos hform, if_neg (not_le.mpr hid)]
      rw [SecRuleSpec.entryIDs, if_pos (by simp [SecRuleSpec.isSingleRuleForm]),
        metaID_withAssignedID _ (hexplicit 0 id _ rfl rfl)]
    · have hentries : rule.spec.entryIDs = rule.spec.secRules.map fun r => metaID r.metadata :=
        if_neg hform
      rw [hentries] at hlength hexplicit
      rw [length_map] at hlength
      have hstays : SecRuleSpec.isSingleRuleForm
          { rule.spec with secRules := assignBagIDs rule.spec.secRules (id :: ids) } = false := by
        cases hrules : rule.spec.secRules with
        | nil => rw [hrules] at hlength; cases hlength
        | cons r rs =>
          rw [SecRuleSpec.isSingleRuleForm, hrules] at hform
          exact Bool.eq_false_iff.mpr hform
      simp only [if_neg hform]
      rw [SecRuleSpec.entryIDs, if_neg (by rw [hstays]; decide)]
      refine map_metaID_assignBagIDs hlength hpos fun i y r hy hr => hexplicit i y _ hy ?_
      rw [getElem?_map, hr, Option.map_some]

end

end KubeWaf.Seclang
