import KubeWaf.References.Lifecycle

/-!
# The back references of a rule

`AddRuleSetRef` writes the owner's kind as the type metadata of the Go object has it, which may be
empty. `CleanupBackReferences` takes an empty kind for a wildcard, on either side. What a rule's
`status.ruleSetRefs` should be is the set of the owners that were added and not cleaned up since.
-/

namespace KubeWaf.References

open Seclang List

/-- A RuleSet or WAF as a Go object, whose type metadata may be empty. -/
structure OwnerObject where
  key : OwnerKey
  typeKind : String
  typeKind_eq : typeKind = "" ∨ typeKind = key.kind.text

def OwnerObject.source (o : OwnerObject) : Source :=
  match o.key.kind with
  | .ruleSet => .ruleSet o.typeKind ⟨o.key.ns, o.key.name, {}⟩
  | .waf => .waf o.typeKind { ns := o.key.ns, name := o.key.name }

/-- The calls that change the back references of one rule. -/
inductive BackRefCall where
  | add (o : OwnerObject)
  | cleanup (o : OwnerObject)

def BackRefCall.apply (refs : List RuleSetRef) : BackRefCall → List RuleSetRef
  | .add o => (addRuleSetRef refs o.source).1
  | .cleanup o => (filterRefs refs (ownerKindOf o.typeKind o.key) o.key.name o.key.ns).1

/-- `status.ruleSetRefs` after a sequence of calls. -/
def backRefs (calls : List BackRefCall) : List RuleSetRef := calls.foldl BackRefCall.apply []

/-- The entry of an owner. -/
def OwnerKey.ref (k : OwnerKey) : RuleSetRef := ⟨k.kind.text, k.ns, k.name⟩

/-! ## What the entries should be -/

def BackRefCall.live (k : OwnerKey) (live : Bool) : BackRefCall → Bool
  | .add o => live || o.key == k
  | .cleanup o => live && o.key != k

/-- The owner was added and not cleaned up since. -/
def liveAfter (calls : List BackRefCall) (k : OwnerKey) : Bool :=
  calls.foldl (BackRefCall.live k) false

/-- The entries are those of the owners that are to be listed, each once. -/
def ListsOwners (calls : List BackRefCall) : Prop :=
  (backRefs calls).Nodup ∧
    ∀ ref, ref ∈ backRefs calls ↔ ∃ k, liveAfter calls k = true ∧ ref = k.ref

/-- Cleaning up an owner leaves the entry that was written for one that differs from it in its kind
only. -/
def SparesOtherKinds (calls : List BackRefCall) (o : OwnerObject) : Prop :=
  ∀ o' : OwnerObject, .add o' ∈ calls →
    o'.key.kind ≠ o.key.kind → o'.key.ns = o.key.ns → o'.key.name = o.key.name →
    o'.source.backRef ∈ backRefs calls → o'.source.backRef ∈ backRefs (calls ++ [.cleanup o])

/-! ## The calls -/

lemma backRefs_append (calls : List BackRefCall) (call : BackRefCall) :
    backRefs (calls ++ [call]) = call.apply (backRefs calls) := by
  rw [backRefs, foldl_append]
  rfl

lemma liveAfter_append (calls : List BackRefCall) (call : BackRefCall) (k : OwnerKey) :
    liveAfter (calls ++ [call]) k = call.live k (liveAfter calls k) := by
  rw [liveAfter, foldl_append]
  rfl

lemma OwnerObject.backRef_source (o : OwnerObject) :
    o.source.backRef = ⟨o.typeKind, o.key.ns, o.key.name⟩ := by
  unfold OwnerObject.source
  cases o.key.kind with
  | ruleSet => rfl
  | waf => rfl

lemma OwnerKind.text_ne_empty (kind : OwnerKind) : kind.text ≠ "" := by
  cases kind <;> decide

lemma OwnerKind.text_injective : Function.Injective OwnerKind.text := by
  intro kind kind'
  cases kind <;> cases kind' <;> decide

lemma OwnerKey.ref_injective : Function.Injective OwnerKey.ref := by
  intro k k' h
  obtain ⟨hkind, hns, hname⟩ := RuleSetRef.mk.inj h
  cases k
  cases k'
  simp only at hkind hns hname
  rw [OwnerKind.text_injective hkind, hns, hname]

lemma OwnerObject.ownerKindOf_eq (o : OwnerObject) :
    ownerKindOf o.typeKind o.key = o.key.kind.text := by
  unfold ownerKindOf
  by_cases hkind : o.typeKind = ""
  · rw [if_neg (not_not.mpr hkind)]
  · rw [if_pos hkind]
    exact o.typeKind_eq.resolve_left hkind

lemma matchesOwner_ref (k : OwnerKey) (o : OwnerObject) :
    matchesOwner k.ref (ownerKindOf o.typeKind o.key) o.key.name o.key.ns = true ↔ k = o.key := by
  rw [o.ownerKindOf_eq]
  unfold matchesOwner
  constructor
  · intro h
    by_cases hname : k.ref.name ≠ o.key.name ∨ k.ref.ns ≠ o.key.ns
    · rw [if_pos hname] at h
      cases h
    · rw [if_neg hname, if_neg (by simp [OwnerKey.ref, OwnerKind.text_ne_empty]),
        decide_eq_true_eq] at h
      rw [not_or, not_not, not_not] at hname
      apply OwnerKey.ref_injective
      exact RuleSetRef.mk.injEq .. ▸ ⟨h, hname.2, hname.1⟩
  · intro h
    rw [h, if_neg (by simp [OwnerKey.ref]), if_neg (by simp [OwnerKey.ref, OwnerKind.text_ne_empty])]
    exact decide_eq_true rfl

lemma mem_apply_add {refs : List RuleSetRef} {o : OwnerObject} {ref : RuleSetRef} :
    ref ∈ (BackRefCall.add o).apply refs ↔ ref ∈ refs ∨ ref = o.source.backRef := by
  simp only [BackRefCall.apply, addRuleSetRef]
  by_cases hmem : o.source.backRef ∈ refs
  · rw [if_pos hmem]
    constructor
    · exact .inl
    · intro h
      obtain h | rfl := h
      · exact h
      · exact hmem
  · rw [if_neg hmem, mem_append, mem_singleton]

lemma nodup_apply {refs : List RuleSetRef} (h : refs.Nodup) (call : BackRefCall) :
    (call.apply refs).Nodup := by
  cases call with
  | add o =>
    simp only [BackRefCall.apply, addRuleSetRef]
    by_cases hmem : o.source.backRef ∈ refs
    · rw [if_pos hmem]
      exact h
    · rw [if_neg hmem]
      exact concat_eq_append ▸ h.concat hmem
  | cleanup o => exact h.filter _

lemma OwnerObject.backRef_of_kind {o : OwnerObject} (h : o.typeKind ≠ "") :
    o.source.backRef = o.key.ref := by
  rw [o.backRef_source, o.typeKind_eq.resolve_left h]
  rfl

/-! ## Sequences of calls -/

lemma listsOwners_of_kinds {calls : List BackRefCall}
    (h : ∀ o, .add o ∈ calls → o.typeKind ≠ "") : ListsOwners calls := by
  induction calls using List.reverseRecOn with
  | nil =>
    refine ⟨nodup_nil, fun ref => ⟨fun hmem => absurd hmem not_mem_nil, ?_⟩⟩
    intro ⟨k, hlive, _⟩
    cases hlive
  | append_singleton calls call ih =>
    obtain ⟨hnodup, hrefs⟩ := ih fun o ho => h o (mem_append_left _ ho)
    unfold ListsOwners
    rw [backRefs_append]
    refine ⟨nodup_apply hnodup call, fun ref => ?_⟩
    simp only [liveAfter_append]
    cases call with
    | add o =>
      have hkind := h o (mem_append_right _ mem_cons_self)
      rw [mem_apply_add, hrefs, OwnerObject.backRef_of_kind hkind]
      simp only [BackRefCall.live, Bool.or_eq_true, beq_iff_eq]
      constructor
      · intro hmem
        obtain ⟨k, hlive, rfl⟩ | rfl := hmem
        · exact ⟨k, .inl hlive, rfl⟩
        · exact ⟨o.key, .inr rfl, rfl⟩
      · intro ⟨k, hlive, hk⟩
        obtain hlive | rfl := hlive
        · exact .inl ⟨k, hlive, hk⟩
        · exact .inr hk
    | cleanup o =>
      simp only [BackRefCall.apply, filterRefs, mem_filter, hrefs, BackRefCall.live,
        Bool.and_eq_true, bne_iff_ne]
      constructor
      · intro ⟨⟨k, hlive, hk⟩, hother⟩
        refine ⟨k, ⟨hlive, fun heq => ?_⟩, hk⟩
        rw [hk, (matchesOwner_ref k o).mpr heq.symm] at hother
        cases hother
      · intro ⟨k, ⟨hlive, hne⟩, hk⟩
        refine ⟨⟨k, hlive, hk⟩, ?_⟩
        rw [hk, Bool.not_eq_true', ← Bool.not_eq_true, matchesOwner_ref]
        exact fun heq => hne heq.symm

lemma sparesOtherKinds_of_kinds {calls : List BackRefCall}
    (h : ∀ o, .add o ∈ calls → o.typeKind ≠ "") (o : OwnerObject) : SparesOtherKinds calls o := by
  intro o' ho' hkind _ _ hmem
  rw [OwnerObject.backRef_of_kind (h o' ho')] at hmem ⊢
  rw [backRefs_append]
  refine mem_filter.mpr ⟨hmem, ?_⟩
  rw [Bool.not_eq_true', ← Bool.not_eq_true, matchesOwner_ref]
  exact fun heq => hkind (congrArg OwnerKey.kind heq)

/-- After every call the back references are those of the owners that were added and not cleaned up
since, and no cleanup takes an entry of another kind of owner, exactly when every object that is
added has its kind filled in. -/
theorem backRefs_exact_iff (calls : List BackRefCall) :
    ((∀ done, done <+: calls → ListsOwners done) ∧
      ∀ done o, done ++ [.cleanup o] <+: calls → SparesOtherKinds done o) ↔
    ∀ o, .add o ∈ calls → o.typeKind ≠ "" := by
  constructor
  · intro ⟨h, _⟩ o ho hempty
    obtain ⟨before, behind, rfl⟩ := append_of_mem ho
    obtain ⟨_, hrefs⟩ := h (before ++ [.add o]) ⟨behind, append_cons .. |>.symm⟩
    -- the entry without a kind is no owner's
    have hmem : o.source.backRef ∈ backRefs (before ++ [.add o]) := by
      rw [backRefs_append, mem_apply_add]
      exact .inr rfl
    obtain ⟨k, _, hk⟩ := (hrefs _).mp hmem
    rw [o.backRef_source, hempty] at hk
    exact OwnerKind.text_ne_empty k.kind (RuleSetRef.mk.inj hk).1.symm
  · intro h
    constructor
    · intro done hdone
      exact listsOwners_of_kinds fun o ho => h o (hdone.subset ho)
    · intro done o hdone
      refine sparesOtherKinds_of_kinds (fun o' ho' => h o' (hdone.subset ?_)) o
      exact mem_append_left _ ho'

/-- A WAF and a RuleSet of one name, as a typed client reads them. -/
def edgeWAF : OwnerObject := ⟨⟨.waf, "shop", "edge"⟩, "", .inl rfl⟩

def edgeRuleSet : OwnerObject := ⟨⟨.ruleSet, "shop", "edge"⟩, "", .inl rfl⟩

/-- Cleaning up the RuleSet takes the entry of the WAF, which is listed without its kind. -/
theorem edge_cleanup_strips_waf :
    backRefs [.add edgeWAF] = [⟨"", "shop", "edge"⟩] ∧
    backRefs [.add edgeWAF, .cleanup edgeRuleSet] = [] ∧
    liveAfter [.add edgeWAF, .cleanup edgeRuleSet] edgeWAF.key = true ∧
    ¬ ListsOwners [.add edgeWAF, .cleanup edgeRuleSet] := by
  have hnil : backRefs [.add edgeWAF, .cleanup edgeRuleSet] = [] := by decide
  have hlive : liveAfter [.add edgeWAF, .cleanup edgeRuleSet] edgeWAF.key = true := by decide
  refine ⟨by decide, hnil, hlive, fun h => ?_⟩
  have hmem := (h.2 edgeWAF.key.ref).mpr ⟨edgeWAF.key, hlive, rfl⟩
  rw [hnil] at hmem
  exact absurd hmem not_mem_nil

end KubeWaf.References
