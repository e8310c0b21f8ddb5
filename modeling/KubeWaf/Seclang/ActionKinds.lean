import KubeWaf.Seclang.FromCrsTheorems

/-!
# The kinds of actions

Which kinds of actions a rule has, on either side of the conversion, and that converting to the API
and back keeps them. Values are not compared: most actions are written without theirs.
-/

namespace KubeWaf.Seclang

open Lib List

/-- The four lists of actions of a rule. -/
inductive ActionList where
  | data
  | disruptive
  | flow
  | nonDisruptive
deriving DecidableEq

/-- The kind of an action: the list it stands in, and its key. -/
abbrev ActionKind := ActionList × String

section
variable {α τ : Type} {texts : τ → String}

def SeclangActions.kinds (lib : Crslang α) (a : SeclangActions α) : List ActionKind :=
  a.dataActions.map (fun x => (.data, lib.getKey x)) ++
    a.disruptiveAction.toList.map (fun x => (.disruptive, lib.getKey x)) ++
    a.flowActions.map (fun x => (.flow, lib.getKey x)) ++
    a.nonDisruptiveActions.map fun x => (.nonDisruptive, lib.getKey x)

def SecRuleActions.kinds (a : SecRuleActions) : List ActionKind :=
  a.data.map (fun x => (.data, x.type.toText DataActionType.text)) ++
    a.disruptiveAction.toList.map
      (fun x => (.disruptive, x.type.toText DisruptiveActionType.text)) ++
    a.flow.map (fun x => (.flow, x.type.toText FlowActionType.text)) ++
    a.nonDisruptive.map fun x => (.nonDisruptive, x.type.toText NonDisruptiveActionType.text)

/-- What crslang documents of the functions that conversion calls: an action is built for every
kind but the unknown ones and has the key of its kind, a `setvar` has that key, and a
transformation prints as SecLang spells it. -/
structure Crslang.Documented (lib : Crslang α) : Prop where
  newActionOnly : ∀ t key, t.key? = some key → t ≠ .flow (.known .flowUnknown) →
    ∃ a, lib.newActionOnly t = .ok a ∧ lib.getKey a = key
  newActionWithParam : ∀ t key value, t.key? = some key → t ≠ .flow (.known .flowUnknown) →
    ∃ a, lib.newActionWithParam t value = .ok a ∧ lib.getKey a = key
  setvar : ∀ a sv, lib.setvar a = some sv → lib.getKey a = NonDisruptiveActionType.setVar.text
  transformationString : ∀ t : Transformation, t ≠ .unknownTransformation →
    lib.transformationString (.known t) = t.text

lemma plainCrslang_documented : plainCrslang.Documented where
  newActionOnly t key hkey _ := ⟨{ key }, by simp [plainCrslang, hkey], rfl⟩
  newActionWithParam t key value hkey _ :=
    ⟨{ key, param := some value }, by simp [plainCrslang, hkey], rfl⟩
  setvar a sv h := by cases h
  transformationString t ht := by
    cases t with
    | unknownTransformation => exact absurd rfl ht
    | _ => rfl

/-- All actions are of a kind that the enumerations have, each in the list of its kind. -/
structure SecRuleActions.Known (a : SecRuleActions) : Prop where
  data : ∀ x ∈ a.data, ∃ t, x.type = .known t
  disruptive : ∀ x ∈ a.disruptiveAction, ∃ t, x.type = .known t
  flow : ∀ x ∈ a.flow, ∃ t, x.type = .known t ∧ t ≠ .flowUnknown
  nonDisruptive : ∀ x ∈ a.nonDisruptive, ∃ t, x.type = .known t

/-- The same of crslang's actions, where a `setvar` assigns something. -/
structure SeclangActions.Known (lib : Crslang α) (a : SeclangActions α) : Prop where
  data : ∀ x ∈ a.dataActions, ∃ t : DataActionType, lib.getKey x = t.text
  disruptive : ∀ x ∈ a.disruptiveAction, ∃ t : DisruptiveActionType, lib.getKey x = t.text
  flow : ∀ x ∈ a.flowActions, ∃ t : FlowActionType, lib.getKey x = t.text ∧ t ≠ .flowUnknown
  nonDisruptive : ∀ x ∈ a.nonDisruptiveActions,
    ∃ t : NonDisruptiveActionType, lib.getKey x = t.text
  setvar : ∀ x ∈ a.nonDisruptiveActions, ∀ sv, lib.setvar x = some sv → sv.assignments ≠ []

/-! ## To crslang -/

section
variable {lib : Crslang α} (hlib : lib.Documented)
include hlib

lemma exists_actionToCSR {t : CrsActionType} {key : String} (hkey : t.key? = some key)
    (ht : t ≠ .flow (.known .flowUnknown)) (value : String) :
    ∃ a, actionToCSR lib t value = .ok a ∧ lib.getKey a = key := by
  unfold actionToCSR
  split_ifs
  · exact hlib.newActionOnly t key hkey ht
  · exact hlib.newActionWithParam t key value hkey ht

lemma exists_actionToCSR_of_known {wrap : CrsEnum τ → CrsActionType} {default : CrsEnum τ}
    {x : ApiAction τ} (list : ActionList) (hkey : ∀ t, (wrap (.known t)).key? = some (texts t))
    (hx : ∃ t, x.type = .known t ∧ wrap (.known t) ≠ .flow (.known .flowUnknown)) :
    ∃ a, actionToCSR lib (wrap (toCrsEnum default x.type)) x.value = .ok a ∧
      (list, lib.getKey a) = (list, x.type.toText texts) := by
  obtain ⟨t, ht, hne⟩ := hx
  obtain ⟨a, ha, hgetKey⟩ := exists_actionToCSR hlib (hkey t) hne x.value
  refine ⟨a, by rw [ht]; exact ha, ?_⟩
  rw [hgetKey, ht]
  rfl

lemma exists_secActionToCSR {a : SecRuleActions} (ha : a.Known) :
    ∃ b, secActionToCSR lib a = .ok b ∧ b.kinds lib = a.kinds ∧
      (a.disruptiveAction = none → b.disruptiveAction = none) := by
  have hdata : ∀ x ∈ a.data, ∃ y, dataActionToCSR lib x = .ok y ∧
      (ActionList.data, lib.getKey y) = (.data, x.type.toText DataActionType.text) := by
    intro x hx
    obtain ⟨t, ht⟩ := ha.data x hx
    exact exists_actionToCSR_of_known hlib .data (fun _ => rfl) ⟨t, ht, by simp⟩
  have hdisruptive : ∀ x ∈ a.disruptiveAction, ∃ y, disruptiveActionToCSR lib x = .ok y ∧
      (ActionList.disruptive, lib.getKey y) =
        (.disruptive, x.type.toText DisruptiveActionType.text) := by
    intro x hx
    obtain ⟨t, ht⟩ := ha.disruptive x hx
    exact exists_actionToCSR_of_known hlib .disruptive (fun _ => rfl) ⟨t, ht, by simp⟩
  have hflow : ∀ x ∈ a.flow, ∃ y, flowActionToCSR lib x = .ok y ∧
      (ActionList.flow, lib.getKey y) = (.flow, x.type.toText FlowActionType.text) := by
    intro x hx
    obtain ⟨t, ht, hne⟩ := ha.flow x hx
    exact exists_actionToCSR_of_known hlib .flow (fun _ => rfl) ⟨t, ht, by simpa using hne⟩
  have hnon : ∀ x ∈ a.nonDisruptive, ∃ y, nonDisruptiveActionToCSR lib x = .ok y ∧
      (ActionList.nonDisruptive, lib.getKey y) =
        (.nonDisruptive, x.type.toText NonDisruptiveActionType.text) := by
    intro x hx
    obtain ⟨t, ht⟩ := ha.nonDisruptive x hx
    exact exists_actionToCSR_of_known hlib .nonDisruptive (fun _ => rfl) ⟨t, ht, by simp⟩
  obtain ⟨data, hdata, hdataKinds⟩ := exists_mapM_eq_ok_of_forall hdata
  obtain ⟨flow, hflow, hflowKinds⟩ := exists_mapM_eq_ok_of_forall hflow
  obtain ⟨non, hnon, hnonKinds⟩ := exists_mapM_eq_ok_of_forall hnon
  unfold secActionToCSR SeclangActions.kinds SecRuleActions.kinds
  rw [← hdataKinds, ← hflowKinds, ← hnonKinds, hdata, hflow, hnon]
  cases hopt : a.disruptiveAction with
  | none => exact ⟨_, rfl, rfl, fun _ => rfl⟩
  | some x =>
    obtain ⟨y, hy, hkind⟩ := hdisruptive x (by rw [hopt]; rfl)
    refine ⟨⟨data, some y, flow, non⟩, ?_, ?_, fun h => absurd h (by simp)⟩
    · have hmap : Option.mapM (disruptiveActionToCSR lib) (some x) = .ok (some y) := by
        rw [option_mapM_eq_ok]
        exact .inr ⟨x, y, rfl, hy, rfl⟩
      rw [hmap]
      rfl
    · simp [hkind]

end

/-! ## From crslang -/

lemma ofText_text [DecidableEq τ] {all : List τ} {t : τ}
    (hinj : ∀ a ∈ all, ∀ b ∈ all, texts a = texts b → a = b) (ht : t ∈ all) :
    ApiEnum.ofText texts all (texts t) = .known t := by
  unfold ApiEnum.ofText
  cases hfind : all.find? (fun a => texts a == texts t) with
  | none =>
    rw [find?_eq_none] at hfind
    exact absurd (hfind t ht) (by simp)
  | some a =>
    have htext := find?_some hfind
    rw [beq_iff_eq] at htext
    rw [hinj a (mem_of_find?_eq_some hfind) t ht htext]

lemma ofText_data (t : DataActionType) :
    ApiEnum.ofText DataActionType.text DataActionType.all t.text = .known t :=
  ofText_text (by decide) (by cases t <;> decide)

lemma ofText_disruptive (t : DisruptiveActionType) :
    ApiEnum.ofText DisruptiveActionType.text DisruptiveActionType.all t.text = .known t :=
  ofText_text (by decide) (by cases t <;> decide)

lemma ofText_flow (t : FlowActionType) :
    ApiEnum.ofText FlowActionType.text FlowActionType.all t.text = .known t :=
  ofText_text (by decide) (by cases t <;> decide)

lemma ofText_nonDisruptive (t : NonDisruptiveActionType) :
    ApiEnum.ofText NonDisruptiveActionType.text NonDisruptiveActionType.all t.text = .known t :=
  ofText_text (by decide) (by cases t <;> decide)

lemma toText_ofText (texts : τ → String) (all : List τ) (s : String) :
    (ApiEnum.ofText texts all s).toText texts = s := by
  unfold ApiEnum.ofText
  cases hfind : all.find? (fun a => texts a == s) with
  | none => rfl
  | some a =>
    have htext := find?_some hfind
    rw [beq_iff_eq] at htext
    exact htext

section
variable {lib : Crslang α} {a : SeclangActions α}

lemma dataActionToAPI_type (a : α) : (dataActionToAPI lib a).type =
    ApiEnum.ofText DataActionType.text DataActionType.all (lib.getKey a) := by
  unfold dataActionToAPI
  simp only
  split
  · rfl
  · split_ifs <;> rfl

lemma disruptiveActionToAPI_type (a : α) : (disruptiveActionToAPI lib a).type =
    ApiEnum.ofText DisruptiveActionType.text DisruptiveActionType.all (lib.getKey a) := by
  unfold disruptiveActionToAPI
  simp only
  split <;> rfl

lemma flowActionToAPI_type (a : α) : (flowActionToAPI lib a).type =
    ApiEnum.ofText FlowActionType.text FlowActionType.all (lib.getKey a) := by
  unfold flowActionToAPI
  simp only
  split <;> rfl

lemma nonDisruptiveActionToAPI_type (hlib : lib.Documented) {a : α} {x : NonDisruptiveAction}
    (hx : x ∈ nonDisruptiveActionToAPI lib a) : x.type =
      ApiEnum.ofText NonDisruptiveActionType.text NonDisruptiveActionType.all (lib.getKey a) := by
  unfold nonDisruptiveActionToAPI at hx
  cases hsetvar : lib.setvar a with
  | some sv =>
    simp only [hsetvar, mem_map] at hx
    obtain ⟨asg, _, rfl⟩ := hx
    rw [hlib.setvar a sv hsetvar, ofText_nonDisruptive]
  | none =>
    simp only [hsetvar] at hx
    split at hx
    all_goals
      rw [mem_singleton] at hx
      rw [hx]

lemma nonDisruptiveActionToAPI_ne_nil {a : α}
    (ha : ∀ sv, lib.setvar a = some sv → sv.assignments ≠ []) :
    nonDisruptiveActionToAPI lib a ≠ [] := by
  unfold nonDisruptiveActionToAPI
  cases hsetvar : lib.setvar a with
  | some sv => simpa using ha sv hsetvar
  | none =>
    simp only
    split <;> simp

lemma mem_kinds_secActionToAPI (hlib : lib.Documented) (ha : a.Known lib) (k : ActionKind) :
    k ∈ (secActionToAPI lib a).kinds ↔ k ∈ a.kinds lib := by
  have hnon : (∃ y ∈ (secActionToAPI lib a).nonDisruptive,
      (ActionList.nonDisruptive, y.type.toText NonDisruptiveActionType.text) = k) ↔
      ∃ x ∈ a.nonDisruptiveActions, (ActionList.nonDisruptive, lib.getKey x) = k := by
    have htext : ∀ x, ∀ y ∈ nonDisruptiveActionToAPI lib x,
        y.type.toText NonDisruptiveActionType.text = lib.getKey x := by
      intro x y hy
      rw [nonDisruptiveActionToAPI_type hlib hy, toText_ofText]
    simp only [secActionToAPI, mem_flatMap]
    constructor
    · rintro ⟨y, ⟨x, hx, hy⟩, rfl⟩
      exact ⟨x, hx, by rw [htext x y hy]⟩
    · rintro ⟨x, hx, rfl⟩
      obtain ⟨y, hy⟩ := exists_mem_of_ne_nil _
        (nonDisruptiveActionToAPI_ne_nil (ha.setvar x hx))
      exact ⟨y, ⟨x, hx, hy⟩, by rw [htext x y hy]⟩
  unfold SecRuleActions.kinds SeclangActions.kinds
  simp only [mem_append, mem_map, hnon]
  simp [secActionToAPI, dataActionToAPI_type, disruptiveActionToAPI_type, flowActionToAPI_type, toText_ofText]

lemma known_secActionToAPI (hlib : lib.Documented) (ha : a.Known lib) :
    (secActionToAPI lib a).Known where
  data x hx := by
    obtain ⟨y, hy, rfl⟩ := mem_map.mp hx
    obtain ⟨t, ht⟩ := ha.data y hy
    exact ⟨t, by rw [dataActionToAPI_type, ht, ofText_data]⟩
  disruptive x hx := by
    obtain ⟨y, hy, rfl⟩ := Option.map_eq_some_iff.mp hx
    obtain ⟨t, ht⟩ := ha.disruptive y hy
    exact ⟨t, by rw [disruptiveActionToAPI_type, ht, ofText_disruptive]⟩
  flow x hx := by
    obtain ⟨y, hy, rfl⟩ := mem_map.mp hx
    obtain ⟨t, ht, hne⟩ := ha.flow y hy
    exact ⟨t, by rw [flowActionToAPI_type, ht, ofText_flow], hne⟩
  nonDisruptive x hx := by
    obtain ⟨y, hy, hx⟩ := mem_flatMap.mp hx
    obtain ⟨t, ht⟩ := ha.nonDisruptive y hy
    exact ⟨t, by rw [nonDisruptiveActionToAPI_type hlib hx, ht, ofText_nonDisruptive]⟩

end

/-! ## The `chain` action -/

/-- The kind of the action that continues a chain. -/
def chainKind : ActionKind := (.flow, FlowActionType.chain.text)

section
variable {a : SecRuleActions} (ha : a.Known)
include ha

lemma toText_eq_chain_iff {x : FlowAction} (hx : x ∈ a.flow) :
    x.type.toText FlowActionType.text = FlowActionType.chain.text ↔ x.type = .known .chain := by
  obtain ⟨t, ht, _⟩ := ha.flow x hx
  rw [ht]
  cases t <;> decide

lemma hasChainInActions_iff : hasChainInActions a = true ↔ chainKind ∈ a.kinds := by
  have hflow : (∃ x ∈ a.flow, (ActionList.flow, x.type.toText FlowActionType.text) = chainKind) ↔
      ∃ x ∈ a.flow, x.type = .known .chain := by
    constructor
    · rintro ⟨x, hx, hkind⟩
      exact ⟨x, hx, (toText_eq_chain_iff ha hx).mp (Prod.mk.inj hkind).2⟩
    · rintro ⟨x, hx, htype⟩
      exact ⟨x, hx, by rw [htype]; rfl⟩
  rw [hasChainInActions, any_eq_true]
  simp only [beq_iff_eq, ← hflow, SecRuleActions.kinds, mem_append, mem_map]
  simp [chainKind]

lemma mem_kinds_withoutChain (k : ActionKind) :
    k ∈ (withoutChain a).kinds ↔ k ∈ a.kinds ∧ k ≠ chainKind := by
  have hflow : (∃ x ∈ filterOutChain a.flow,
      (ActionList.flow, x.type.toText FlowActionType.text) = k) ↔
      (∃ x ∈ a.flow, (ActionList.flow, x.type.toText FlowActionType.text) = k) ∧
        k ≠ chainKind := by
    constructor
    · rintro ⟨x, hx, rfl⟩
      obtain ⟨hx, htype⟩ := mem_filter.mp hx
      refine ⟨⟨x, hx, rfl⟩, ?_⟩
      intro hkind
      have hchain := (toText_eq_chain_iff ha hx).mp (Prod.mk.inj hkind).2
      simp [hchain] at htype
    · rintro ⟨⟨x, hx, rfl⟩, hne⟩
      refine ⟨x, mem_filter.mpr ⟨hx, ?_⟩, rfl⟩
      rw [bne_iff_ne]
      intro htype
      exact hne (by rw [htype]; rfl)
  have hother : ∀ l : ActionList, l ≠ .flow → ∀ key, (l, key) ≠ chainKind := by
    intro l hl key heq
    exact hl (Prod.mk.inj heq).1
  simp only [withoutChain, SecRuleActions.kinds, mem_append, mem_map, hflow]
  constructor
  · rintro (((⟨x, hx, rfl⟩ | ⟨x, hx, rfl⟩) | ⟨hx, hne⟩) | ⟨x, hx, rfl⟩)
    · exact ⟨.inl (.inl (.inl ⟨x, hx, rfl⟩)), hother _ (by decide) _⟩
    · exact ⟨.inl (.inl (.inr ⟨x, hx, rfl⟩)), hother _ (by decide) _⟩
    · exact ⟨.inl (.inr hx), hne⟩
    · exact ⟨.inr ⟨x, hx, rfl⟩, hother _ (by decide) _⟩
  · rintro ⟨((hx | hx) | hx) | hx, hne⟩
    · exact .inl (.inl (.inl hx))
    · exact .inl (.inl (.inr hx))
    · exact .inl (.inr ⟨hx, hne⟩)
    · exact .inr hx

lemma known_withoutChain : (withoutChain a).Known where
  data := ha.data
  disruptive := ha.disruptive
  flow x hx := ha.flow x (mem_filter.mp hx).1
  nonDisruptive := ha.nonDisruptive

lemma mem_kinds_ensureChainAction (k : ActionKind) :
    k ∈ (ensureChainAction (some a)).kinds ↔ k ∈ a.kinds ∨ k = chainKind := by
  unfold ensureChainAction
  simp only [Option.getD_some]
  split_ifs with hchain
  · rw [hasChainInActions_iff ha] at hchain
    constructor
    · exact .inl
    · rintro (hk | rfl)
      · exact hk
      · exact hchain
  · simp only [SecRuleActions.kinds, mem_append, map_append, map_cons, map_nil, mem_singleton]
    rw [show (ActionList.flow, (ApiEnum.known FlowActionType.chain).toText FlowActionType.text) =
      chainKind from rfl]
    tauto

lemma known_ensureChainAction : (ensureChainAction (some a)).Known := by
  unfold ensureChainAction
  simp only [Option.getD_some]
  split_ifs
  · exact ha
  · refine ⟨ha.data, ha.disruptive, ?_, ha.nonDisruptive⟩
    intro x hx
    rcases mem_append.mp hx with hx | hx
    · exact ha.flow x hx
    · rw [mem_singleton] at hx
      exact ⟨.chain, by rw [hx], by decide⟩

end

end

end KubeWaf.Seclang
