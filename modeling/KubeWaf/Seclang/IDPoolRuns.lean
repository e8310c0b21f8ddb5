import KubeWaf.Seclang.IDPool

/-!
# Runs of the allocation

What each state of a SecRule in a run looks like, given the state the run started in, and what
that says of the ids a reconcile reads. An entry keeps the id it starts with, if it has one, and
else only ever has ids that the pool has granted to it.
-/

namespace KubeWaf.Seclang

open Lib List

variable {m : Int} {source : IDSource}

section
variable {K : Type}

/-- What an entry gets without the pool. -/
def fixedAt (w : World K) (k : K) (i : ℕ) : Option (Int × IDSource) :=
  (w.rules k).spec.entryIDs[i]?.bind fun m => fixedID (w.rules k) m i

/-- An entry that needs the pool. -/
def Needs (w : World K) (k : K) (i : ℕ) : Prop :=
  ∃ m, (w.rules k).spec.entryIDs[i]? = some m ∧ fixedID (w.rules k) m i = none

/-- An id that the pool must not grant: one that a spec sets, or one that an entry has. -/
def Protected (w : World K) (id : Int) : Prop :=
  ∃ k, id ∈ (w.rules k).spec.explicitIDs ∨ ∃ i source, fixedAt w k i = some (id, source)

/-- An id that an entry can have in a run: the one it starts with, else one that the pool has
granted to it. -/
def Valid (w : World K) (allocated : List ((K × ℕ) × Int)) (k : K) (i : ℕ) (id : Int) : Prop :=
  (∃ source, fixedAt w k i = some (id, source)) ∨ (Needs w k i ∧ ((k, i), id) ∈ allocated)

/-- A status with an id for each entry. -/
structure Complete (w : World K) (allocated : List ((K × ℕ) × Int)) (k : K)
    (status : SecRuleStatus) : Prop where
  ids : ∀ i m, (w.rules k).spec.entryIDs[i]? = some m →
    ∃ id, status.assignedIDs[i]? = some id ∧ Valid w allocated k i id
  assignedIDs : ∀ id ∈ status.assignedIDs, ∃ i, Valid w allocated k i id
  ruleID : 0 < status.ruleID → ∃ i, Valid w allocated k i status.ruleID

/-- A state of a SecRule in a run: the status is the first one or complete, and the annotation is
the first one or an id of the first entry. -/
structure Evolved (w : World K) (allocated : List ((K × ℕ) × Int)) (k : K) (sr : StoredRule) :
    Prop where
  spec : sr.spec = (w.rules k).spec
  status : (sr.status.assignedIDs = (w.rules k).status.assignedIDs
      ∧ sr.status.ruleID = (w.rules k).status.ruleID)
    ∨ Complete w allocated k sr.status
  annotatedID : sr.annotatedID = (w.rules k).annotatedID
    ∨ ∃ id, sr.annotatedID = some id ∧ Valid w allocated k 0 id

/-- The pool has granted positive ids only. -/
def AllPositive (allocated : List ((K × ℕ) × Int)) : Prop := ∀ x ∈ allocated, 0 < x.2

variable {w : World K} {allocated allocated' : List ((K × ℕ) × Int)} {k : K} {i : ℕ} {id : Int}
  {status : SecRuleStatus}

/-! ## Entries -/

lemma fixedAt_eq (h : (w.rules k).spec.entryIDs[i]? = some m) :
    fixedAt w k i = fixedID (w.rules k) m i := by
  rw [fixedAt, h, Option.bind_some]

lemma entry_of_fixedAt (h : fixedAt w k i = some (id, source)) :
    ∃ m, (w.rules k).spec.entryIDs[i]? = some m ∧ fixedID (w.rules k) m i = some (id, source) :=
  Option.bind_eq_some_iff.mp h

lemma mem_explicitIDs {spec : SecRuleSpec} (h : m ∈ spec.entryIDs) (hm : 0 < m) :
    m ∈ spec.explicitIDs := by
  rw [SecRuleSpec.explicitIDs, mem_filter]
  refine ⟨?_, decide_eq_true hm⟩
  rw [SecRuleSpec.entryIDs] at h
  by_cases hform : spec.isSingleRuleForm = true
  · rw [if_pos hform] at h
    rw [mem_singleton.mp h]
    exact mem_cons_self
  · rw [if_neg hform] at h
    exact mem_cons_of_mem _ h

lemma fixedID_eq_some {sr : StoredRule} (h : fixedID sr m i = some (id, source)) :
    0 < id ∧ ((source = .spec ∧ id = m)
      ∨ (source = .auto ∧ m ≤ 0 ∧ stickyID sr i = some id ∧ id ∈ sr.ownClaims)) := by
  rw [fixedID] at h
  by_cases hm : 0 < m
  · rw [if_pos hm] at h
    obtain ⟨rfl, rfl⟩ := Prod.mk.inj (Option.some.inj h)
    exact ⟨hm, Or.inl ⟨rfl, rfl⟩⟩
  · rw [if_neg hm, Option.map_eq_some_iff] at h
    obtain ⟨id', hsticky, heq⟩ := h
    obtain ⟨rfl, rfl⟩ := Prod.mk.inj heq
    have hclaim : 0 < id' ∧ id' ∈ sr.ownClaims := by
      rw [stickyID, Option.or_eq_some_iff] at hsticky
      rw [StoredRule.ownClaims]
      rcases hsticky with hstatus | ⟨_, hann⟩
      · obtain ⟨hget, hpos⟩ := Option.filter_eq_some_iff.mp hstatus
        exact ⟨of_decide_eq_true hpos,
          mem_append_left _ (mem_append_left _ (mem_of_getElem? hget))⟩
      · split_ifs at hann
        obtain ⟨hget, hpos⟩ := Option.filter_eq_some_iff.mp hann
        exact ⟨of_decide_eq_true hpos, mem_append_right _ (by rw [hget]; simp)⟩
    exact ⟨hclaim.1, Or.inr ⟨rfl, not_lt.mp hm, hsticky, hclaim.2⟩⟩

lemma Valid.mono (h : Valid w allocated k i id) (hsub : allocated ⊆ allocated') :
    Valid w allocated' k i id :=
  h.imp_right fun ⟨hneeds, hmem⟩ => ⟨hneeds, hsub hmem⟩

lemma Valid.pos (h : Valid w allocated k i id) (hpos : AllPositive allocated) : 0 < id := by
  rcases h with ⟨source, hfixed⟩ | ⟨_, hmem⟩
  · obtain ⟨m, _, hm⟩ := entry_of_fixedAt hfixed
    exact (fixedID_eq_some hm).1
  · exact hpos _ hmem

lemma Valid.eq_of_fixedAt {id' : Int} (h : Valid w allocated k i id)
    (hfixed : fixedAt w k i = some (id', source)) : id = id' := by
  rcases h with ⟨source', hfixed'⟩ | ⟨⟨m, hentry, hneeds⟩, _⟩
  · rw [hfixed] at hfixed'
    exact (Prod.mk.inj (Option.some.inj hfixed')).1.symm
  · rw [fixedAt_eq hentry, hneeds] at hfixed
    cases hfixed

lemma Complete.mono (h : Complete w allocated k status) (hsub : allocated ⊆ allocated') :
    Complete w allocated' k status where
  ids i m hm := (h.ids i m hm).imp fun _ hid => ⟨hid.1, hid.2.mono hsub⟩
  assignedIDs id hid := (h.assignedIDs id hid).imp fun _ hv => hv.mono hsub
  ruleID hpos := (h.ruleID hpos).imp fun _ hv => hv.mono hsub

lemma Evolved.mono {sr : StoredRule} (h : Evolved w allocated k sr)
    (hsub : allocated ⊆ allocated') : Evolved w allocated' k sr where
  spec := h.spec
  status := h.status.imp_right fun hc => hc.mono hsub
  annotatedID := h.annotatedID.imp_right fun ⟨id, hid, hv⟩ => ⟨id, hid, hv.mono hsub⟩

/-! ## What a state of a SecRule shows -/

lemma Complete.filter_eq (hc : Complete w allocated k status) (hpos : AllPositive allocated)
    (hentry : (w.rules k).spec.entryIDs[i]? = some m) :
    ∃ id, status.assignedIDs[i]?.filter (0 < ·) = some id ∧ Valid w allocated k i id := by
  obtain ⟨id, hget, hvalid⟩ := hc.ids i m hentry
  exact ⟨id, Option.filter_eq_some_iff.mpr ⟨hget, decide_eq_true (hvalid.pos hpos)⟩, hvalid⟩

section
variable {sr : StoredRule} (h : Evolved w allocated k sr) (hpos : AllPositive allocated)
include h hpos

lemma Evolved.valid_of_fixedID (hentry : (w.rules k).spec.entryIDs[i]? = some m)
    (hfixed : fixedID sr m i = some (id, source)) : Valid w allocated k i id := by
  obtain ⟨hid, hcases⟩ := fixedID_eq_some hfixed
  rcases hcases with ⟨_, rfl⟩ | ⟨_, hm, hsticky, _⟩
  · refine Or.inl ⟨.spec, ?_⟩
    rw [fixedAt_eq hentry, fixedID, if_pos hid]
  · -- an id that the first state has as well
    have hfirst : stickyID (w.rules k) i = some id → Valid w allocated k i id := by
      intro hfirst
      refine Or.inl ⟨.auto, ?_⟩
      rw [fixedAt_eq hentry, fixedID, if_neg (not_lt.mpr hm), hfirst]
      rfl
    rw [stickyID, Option.or_eq_some_iff] at hsticky
    rcases h.status with ⟨hids, _⟩ | hc
    · rcases hsticky with hstatus | ⟨hnone, hann⟩
      · apply hfirst
        rw [stickyID, ← hids, hstatus, Option.some_or]
      · split_ifs at hann with hi
        rcases h.annotatedID with hsame | ⟨id', hsome, hvalid⟩
        · apply hfirst
          rw [stickyID, ← hids, hnone, if_pos hi, ← hsame, hann]
          rfl
        · rw [hsome] at hann
          obtain ⟨heq, _⟩ := Option.filter_eq_some_iff.mp hann
          rw [hi, ← Option.some.inj heq]
          exact hvalid
    · obtain ⟨id', hfilter, hvalid⟩ := hc.filter_eq hpos hentry
      rcases hsticky with hstatus | ⟨hnone, _⟩
      · rw [hfilter] at hstatus
        cases hstatus
        exact hvalid
      · rw [hfilter] at hnone
        cases hnone

lemma Evolved.needs_of_fixedID (hentry : (w.rules k).spec.entryIDs[i]? = some m)
    (hfixed : fixedID sr m i = none) :
    Needs w k i ∧ sr.status.assignedIDs = (w.rules k).status.assignedIDs
      ∧ sr.status.ruleID = (w.rules k).status.ruleID := by
  rw [fixedID] at hfixed
  split_ifs at hfixed with hm
  rw [Option.map_eq_none_iff, stickyID, Option.or_eq_none_iff] at hfixed
  obtain ⟨hstatus, hann⟩ := hfixed
  rcases h.status with ⟨hids, hrule⟩ | hc
  · refine ⟨⟨m, hentry, ?_⟩, hids, hrule⟩
    have hann' : (if i = 0 then (w.rules k).annotatedID.filter (0 < ·) else none) = none := by
      rcases h.annotatedID with hsame | ⟨id', hsome, hvalid⟩
      · rwa [hsame] at hann
      · by_cases hi : i = 0
        · rw [if_pos hi, hsome, Option.filter_some, if_pos (by simpa using hvalid.pos hpos)] at hann
          cases hann
        · exact if_neg hi
    rw [fixedID, if_neg hm, stickyID, ← hids, hstatus, hann']
    rfl
  · obtain ⟨id', hfilter, _⟩ := hc.filter_eq hpos hentry
    rw [hfilter] at hstatus
    cases hstatus

end

/-! ## Claims -/

section
variable {sr : StoredRule} (h : Evolved w allocated k sr) (hpos : AllPositive allocated)
include h hpos

lemma Evolved.mem_claims_of_fixedAt (hfixed : fixedAt w k i = some (id, source)) :
    id ∈ sr.claims := by
  obtain ⟨m, hentry, hm⟩ := entry_of_fixedAt hfixed
  rw [StoredRule.claims, mem_append]
  cases hsr : fixedID sr m i with
  | none =>
    obtain ⟨⟨m', hentry', hneeds⟩, _⟩ := h.needs_of_fixedID hpos hentry hsr
    rw [hentry] at hentry'
    rw [← Option.some.inj hentry', hm] at hneeds
    cases hneeds
  | some found =>
    obtain ⟨id', source'⟩ := found
    have hid : id' = id := (h.valid_of_fixedID hpos hentry hsr).eq_of_fixedAt hfixed
    subst hid
    obtain ⟨hpositive, hcases⟩ := fixedID_eq_some hsr
    rcases hcases with ⟨_, rfl⟩ | ⟨_, _, _, hown⟩
    · refine Or.inr (mem_explicitIDs ?_ hpositive)
      rw [h.spec]
      exact mem_of_getElem? hentry
    · exact Or.inl (mem_filter.mpr ⟨hown, decide_eq_true hpositive⟩)

end

lemma mem_ownClaims {sr : StoredRule} :
    id ∈ sr.ownClaims ↔ id ∈ sr.status.assignedIDs
      ∨ (0 < sr.status.ruleID ∧ id = sr.status.ruleID) ∨ sr.annotatedID = some id := by
  rw [StoredRule.ownClaims, mem_append, mem_append, or_assoc, Option.mem_toList]
  refine or_congr_right (or_congr_left ?_)
  split_ifs with hpos
  · rw [mem_singleton]
    exact ⟨fun hid => ⟨hpos, hid⟩, fun hid => hid.2⟩
  · exact ⟨fun hid => absurd hid not_mem_nil, fun hid => absurd hid.1 hpos⟩

lemma Evolved.ownClaims_cases {sr : StoredRule} (h : Evolved w allocated k sr)
    (hid : id ∈ sr.ownClaims) : id ∈ (w.rules k).ownClaims ∨ ∃ i, Valid w allocated k i id := by
  rw [mem_ownClaims] at hid ⊢
  rcases hid with hid | ⟨hpos, hid⟩ | hid
  · rcases h.status with ⟨hids, _⟩ | hc
    · rw [hids] at hid
      exact Or.inl (Or.inl hid)
    · exact Or.inr (hc.assignedIDs id hid)
  · rcases h.status with ⟨_, hrule⟩ | hc
    · rw [hrule] at hpos hid
      exact Or.inl (Or.inr (Or.inl ⟨hpos, hid⟩))
    · rw [hid]
      exact Or.inr (hc.ruleID hpos)
  · rcases h.annotatedID with hsame | ⟨id', hsome, hvalid⟩
    · rw [hsame] at hid
      exact Or.inl (Or.inr (Or.inr hid))
    · rw [hsome] at hid
      cases hid
      exact Or.inr ⟨0, hvalid⟩

end

section
variable {K : Type} [Fintype K] {w : World K}
  {allocated : List ((K × ℕ) × Int)} {k : K} {i : ℕ} {id : Int}

lemma mem_collectUsedIDs {rules : K → StoredRule} :
    id ∈ collectUsedIDs rules ↔ ∃ k, id ∈ (rules k).claims := by
  simp [collectUsedIDs]

/-- The ids of a run are those that are claimed at the start and those that the pool grants. -/
def Known (w : World K) (allocated : List ((K × ℕ) × Int)) (id : Int) : Prop :=
  id ∈ collectUsedIDs w.rules ∨ ∃ e, (e, id) ∈ allocated

lemma Known.mono {allocated' : List ((K × ℕ) × Int)} (h : Known w allocated id)
    (hsub : allocated ⊆ allocated') : Known w allocated' id :=
  h.imp_right fun ⟨e, he⟩ => ⟨e, hsub he⟩

lemma Valid.known (h : Valid w allocated k i id) : Known w allocated id := by
  rcases h with ⟨source, hfixed⟩ | ⟨_, hmem⟩
  · refine Or.inl (mem_collectUsedIDs.mpr ⟨k, ?_⟩)
    have hself : Evolved w [] k (w.rules k) := ⟨rfl, Or.inl ⟨rfl, rfl⟩, Or.inl rfl⟩
    exact hself.mem_claims_of_fixedAt (fun x hx => absurd hx not_mem_nil) hfixed
  · exact Or.inr ⟨_, hmem⟩

lemma Evolved.known_of_claims {sr : StoredRule} (h : Evolved w allocated k sr)
    (hid : id ∈ sr.claims) : Known w allocated id := by
  rw [StoredRule.claims, mem_append, mem_filter] at hid
  rcases hid with ⟨hown, hpos⟩ | hexplicit
  · rcases h.ownClaims_cases hown with hown | ⟨i, hvalid⟩
    · refine Or.inl (mem_collectUsedIDs.mpr ⟨k, ?_⟩)
      exact mem_append_left _ (mem_filter.mpr ⟨hown, hpos⟩)
    · exact hvalid.known
  · refine Or.inl (mem_collectUsedIDs.mpr ⟨k, mem_append_right _ ?_⟩)
    rwa [← h.spec]

end

end KubeWaf.Seclang
