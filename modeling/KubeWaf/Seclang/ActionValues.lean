import KubeWaf.Seclang.ActionKinds

/-!
# The values of actions

An action of the API is converted to crslang with its value, and read back from the text that crslang
prints for it. Data actions are read back with any value. For the others the value is read for some
types only, and for those an action without value is read back with its key as the value.
-/

namespace KubeWaf.Seclang

open Lib

/-- The text of an action: its key, and its value in quotes if it has one. -/
def printedAction (key value : String) : String :=
  if value = "" then key else key ++ ":" ++ ("'" ++ value ++ "'")

/-- What crslang documents of the actions that conversion builds: they have the key of their type,
print with their parameter in quotes, and are no `SetvarAction`. -/
structure Crslang.PrintsActions {α : Type} (lib : Crslang α) : Prop where
  newActionOnly : ∀ t key a, t.key? = some key → t ≠ .flow (.known .flowUnknown) →
    lib.newActionOnly t = .ok a →
    lib.getKey a = key ∧ lib.toText a = key ∧ lib.setvar a = none
  newActionWithParam : ∀ t key value a, t.key? = some key → t ≠ .flow (.known .flowUnknown) →
    lib.newActionWithParam t value = .ok a →
    lib.getKey a = key ∧ lib.toText a = key ++ ":" ++ ("'" ++ value ++ "'") ∧ lib.setvar a = none

/-- A value without quotes, and without white space around it. -/
structure CleanValue (v : String) : Prop where
  single : '\'' ∉ v.toList
  double : '"' ∉ v.toList
  spaces : Go.trimSpace v = v

/-- The values of all actions are clean. -/
structure SecRuleActions.Clean (a : SecRuleActions) : Prop where
  data : ∀ x ∈ a.data, CleanValue x.value
  disruptive : ∀ x ∈ a.disruptiveAction, CleanValue x.value
  flow : ∀ x ∈ a.flow, CleanValue x.value
  nonDisruptive : ∀ x ∈ a.nonDisruptive, CleanValue x.value

/-! ## The types whose value is read back -/

def FlowActionType.hasValue : FlowActionType → Bool
  | .skip | .skipAfter => true
  | _ => false

def DisruptiveActionType.hasValue : DisruptiveActionType → Bool
  | .redirect => true
  | _ => false

def NonDisruptiveActionType.hasValue : NonDisruptiveActionType → Bool
  | .ctl | .exec | .expireVar | .initCol | .logData | .setEnv | .setVar | .setRsc | .setSid
  | .setUid => true
  | _ => false

/-- An action has a value exactly when its type is one of those whose value is read back. -/
def Fits {τ : Type} (hasValue : τ → Bool) (x : ApiAction τ) : Prop :=
  ∀ t, x.type = .known t → (hasValue t = true ↔ x.value ≠ "")

structure SecRuleActions.Fits (a : SecRuleActions) : Prop where
  disruptive : ∀ x ∈ a.disruptiveAction, Seclang.Fits DisruptiveActionType.hasValue x
  flow : ∀ x ∈ a.flow, Seclang.Fits FlowActionType.hasValue x
  nonDisruptive : ∀ x ∈ a.nonDisruptive, Seclang.Fits NonDisruptiveActionType.hasValue x

section
variable {α : Type} {lib : Crslang α} {a : α}

lemma actionToCSR_prints (hlib : lib.PrintsActions) {t : CrsActionType} {key value : String}
    (hkey : t.key? = some key) (ht : t ≠ .flow (.known .flowUnknown))
    (h : actionToCSR lib t value = .ok a) :
    lib.getKey a = key ∧ lib.toText a = printedAction key value ∧ lib.setvar a = none := by
  unfold actionToCSR at h
  unfold printedAction
  split_ifs at h ⊢
  · exact hlib.newActionOnly t key a hkey ht h
  · exact hlib.newActionWithParam t key value a hkey ht h

lemma actionValue_printed {key value : String} (hkey : '\'' ∉ key.toList)
    (hvalue : '\'' ∉ value.toList) (hgetKey : lib.getKey a = key)
    (htext : lib.toText a = printedAction key value) :
    actionValue lib a = if value = "" then key else value := by
  rw [actionValue, hgetKey, htext, printedAction]
  split_ifs
  · rw [Go.trimPrefixStr_self (by decide), Go.trimQuotes_eq_self hkey]
  · rw [Go.trimPrefixStr_append, Go.trimQuotes_quoted hvalue]

lemma roundTrip_iff {τ : Type} {wrap : CrsEnum τ → CrsActionType} {default : CrsEnum τ}
    {texts : τ → String} {hasValue : τ → Bool} {toAPI : α → ApiAction τ} {x : ApiAction τ} {y : α}
    (hlib : lib.PrintsActions) (hwrap : ∀ t, (wrap (.known t)).key? = some (texts t))
    (htexts : ∀ t, texts t ≠ "" ∧ '\'' ∉ (texts t).toList)
    (htoAPI : ∀ t a, lib.getKey a = texts t → lib.setvar a = none →
      toAPI a = ⟨.known t, if hasValue t then actionValue lib a else ""⟩)
    (hx : ∃ t, x.type = .known t ∧ wrap (.known t) ≠ .flow (.known .flowUnknown))
    (hclean : CleanValue x.value)
    (h : actionToCSR lib (wrap (toCrsEnum default x.type)) x.value = .ok y) :
    toAPI y = x ↔ Fits hasValue x := by
  obtain ⟨type, value⟩ := x
  obtain ⟨t, rfl, ht⟩ := hx
  obtain ⟨hgetKey, htext, hsetvar⟩ := actionToCSR_prints hlib (hwrap t) ht h
  have hfits : Fits hasValue (⟨.known t, value⟩ : ApiAction τ) ↔ (hasValue t = true ↔ value ≠ "") := by
    constructor
    · intro hfits
      exact hfits t rfl
    · intro hfits t' ht'
      rw [← ApiEnum.known.inj ht']
      exact hfits
  rw [hfits, htoAPI t y hgetKey hsetvar,
    actionValue_printed (htexts t).2 hclean.single hgetKey htext]
  simp only [ApiAction.mk.injEq, true_and]
  cases hasValue t with
  | false =>
    simp only [Bool.false_eq_true, if_false, false_iff, not_not]
    exact eq_comm
  | true =>
    simp only [if_true, true_iff]
    by_cases hempty : value = ""
    · rw [if_pos hempty, hempty]
      exact iff_of_false (htexts t).1 (fun hne => hne rfl)
    · rw [if_neg hempty]
      exact iff_of_true rfl hempty

/-! ## The four lists -/

lemma flowActionToAPI_of_getKey {t : FlowActionType} (h : lib.getKey a = t.text) :
    flowActionToAPI lib a = ⟨.known t, if t.hasValue then actionValue lib a else ""⟩ := by
  unfold flowActionToAPI
  rw [h, ofText_flow]
  cases t <;> rfl

lemma disruptiveActionToAPI_of_getKey {t : DisruptiveActionType} (h : lib.getKey a = t.text) :
    disruptiveActionToAPI lib a = ⟨.known t, if t.hasValue then actionValue lib a else ""⟩ := by
  unfold disruptiveActionToAPI
  rw [h, ofText_disruptive]
  cases t <;> rfl

/-- What `NonDisruptiveActionToAPI` returns for an action that is no `SetvarAction`. -/
def soleNonDisruptive (lib : Crslang α) (a : α) : NonDisruptiveAction :=
  match ApiEnum.ofText NonDisruptiveActionType.text NonDisruptiveActionType.all (lib.getKey a) with
  | .known t => ⟨.known t, if t.hasValue then actionValue lib a else ""⟩
  | .text s => ⟨.text s, ""⟩

lemma nonDisruptiveActionToAPI_of_setvar (h : lib.setvar a = none) :
    nonDisruptiveActionToAPI lib a = [soleNonDisruptive lib a] := by
  unfold nonDisruptiveActionToAPI soleNonDisruptive
  rw [h]
  cases ApiEnum.ofText NonDisruptiveActionType.text NonDisruptiveActionType.all
    (lib.getKey a) with
  | known t => cases t <;> rfl
  | text s => rfl

lemma soleNonDisruptive_of_getKey {t : NonDisruptiveActionType} (h : lib.getKey a = t.text) :
    soleNonDisruptive lib a = ⟨.known t, if t.hasValue then actionValue lib a else ""⟩ := by
  unfold soleNonDisruptive
  rw [h, ofText_nonDisruptive]

lemma dataActionToAPI_dataActionToCSR (hlib : lib.PrintsActions) {x : DataAction} {y : α}
    (hx : ∃ t, x.type = .known t) (hclean : CleanValue x.value)
    (h : dataActionToCSR lib x = .ok y) : dataActionToAPI lib y = x := by
  obtain ⟨type, value⟩ := x
  obtain ⟨t, rfl⟩ := hx
  have hkey : (CrsActionType.data (.known t)).key? = some t.text := rfl
  obtain ⟨hgetKey, htext, -⟩ := actionToCSR_prints hlib hkey (by simp) h
  have hcolon : ':' ∉ t.text.toList := by cases t <;> decide
  unfold dataActionToAPI
  rw [hgetKey, htext, ofText_data, printedAction]
  simp only
  by_cases hvalue : value = ""
  · rw [if_pos hvalue, Go.afterColon_eq_none hcolon, hvalue]
    simp
  · rw [if_neg hvalue, Go.afterColon_append hcolon]
    simp [Go.trimSpace_quoted, Go.trimQuotes_quoted hclean.single]

lemma secActionToCSR_eq_ok {a : SecRuleActions} {b : SeclangActions α} :
    secActionToCSR lib a = .ok b ↔
      a.data.mapM (dataActionToCSR lib) = .ok b.dataActions ∧
        a.disruptiveAction.mapM (disruptiveActionToCSR lib) = .ok b.disruptiveAction ∧
          a.flow.mapM (flowActionToCSR lib) = .ok b.flowActions ∧
            a.nonDisruptive.mapM (nonDisruptiveActionToCSR lib) = .ok b.nonDisruptiveActions := by
  unfold secActionToCSR
  simp only [bind_eq_ok, pure, Except.pure]
  constructor
  · rintro ⟨data, hdata, disruptive, hdisruptive, flow, hflow, non, hnon, hb⟩
    cases hb
    exact ⟨hdata, hdisruptive, hflow, hnon⟩
  · rintro ⟨hdata, hdisruptive, hflow, hnon⟩
    exact ⟨_, hdata, _, hdisruptive, _, hflow, _, hnon, rfl⟩

lemma nonDisruptiveActionToCSR_setvar (hlib : lib.PrintsActions) {x : NonDisruptiveAction} {y : α}
    (hx : ∃ t, x.type = .known t) (h : nonDisruptiveActionToCSR lib x = .ok y) :
    lib.setvar y = none := by
  obtain ⟨type, value⟩ := x
  obtain ⟨t, rfl⟩ := hx
  have hkey : (CrsActionType.nonDisruptive (.known t)).key? = some t.text := rfl
  exact (actionToCSR_prints hlib hkey (by simp) h).2.2

/-- Actions come back from crslang as they were exactly when those with a value, data actions apart,
are those whose value is read. -/
theorem secActionToAPI_eq_iff_fits (hlib : lib.PrintsActions) {a : SecRuleActions}
    {b : SeclangActions α} (hknown : a.Known) (hclean : a.Clean)
    (h : secActionToCSR lib a = .ok b) : secActionToAPI lib b = a ↔ a.Fits := by
  obtain ⟨hdata, hdisruptive, hflow, hnon⟩ := secActionToCSR_eq_ok.mp h
  have hdataBack : b.dataActions.map (dataActionToAPI lib) = a.data := by
    rw [map_eq_iff_of_mapM (P := fun _ => True) _ hdata]
    · exact fun _ _ => trivial
    · intro x hx y hy
      exact iff_true_intro
        (dataActionToAPI_dataActionToCSR hlib (hknown.data x hx) (hclean.data x hx) hy)
  have hdisruptiveBack : b.disruptiveAction.map (disruptiveActionToAPI lib) = a.disruptiveAction ↔
      ∀ x ∈ a.disruptiveAction, Fits DisruptiveActionType.hasValue x := by
    rw [option_mapM_eq_ok] at hdisruptive
    obtain ⟨ha, hb⟩ | ⟨x, y, ha, hy, hb⟩ := hdisruptive
    · simp [ha, hb]
    · obtain ⟨t, ht⟩ := hknown.disruptive x ha
      have hround : disruptiveActionToAPI lib y = x ↔ Fits DisruptiveActionType.hasValue x :=
        roundTrip_iff hlib (fun _ => rfl) (fun t => by cases t <;> decide)
          (fun t a hkey _ => disruptiveActionToAPI_of_getKey hkey) ⟨t, ht, by simp⟩
          (hclean.disruptive x ha) hy
      rw [ha, hb, Option.map_some, Option.some_inj, hround]
      simp
  have hflowBack : b.flowActions.map (flowActionToAPI lib) = a.flow ↔
      ∀ x ∈ a.flow, Fits FlowActionType.hasValue x := by
    refine map_eq_iff_of_mapM (fun x hx y hy => ?_) hflow
    obtain ⟨t, ht, hne⟩ := hknown.flow x hx
    exact roundTrip_iff hlib (fun _ => rfl) (fun t => by cases t <;> decide)
      (fun t a hkey _ => flowActionToAPI_of_getKey hkey) ⟨t, ht, by simpa using hne⟩
      (hclean.flow x hx) hy
  have hnonBack : b.nonDisruptiveActions.flatMap (nonDisruptiveActionToAPI lib) = a.nonDisruptive ↔
      ∀ x ∈ a.nonDisruptive, Fits NonDisruptiveActionType.hasValue x := by
    have hsole : b.nonDisruptiveActions.flatMap (nonDisruptiveActionToAPI lib) =
        b.nonDisruptiveActions.map (soleNonDisruptive lib) := by
      rw [List.map_eq_flatMap]
      apply List.flatMap_congr
      intro y hy
      obtain ⟨x, hx, hxy⟩ := exists_of_mem_mapM hnon hy
      exact nonDisruptiveActionToAPI_of_setvar
        (nonDisruptiveActionToCSR_setvar hlib (hknown.nonDisruptive x hx) hxy)
    rw [hsole]
    refine map_eq_iff_of_mapM (fun x hx y hy => ?_) hnon
    obtain ⟨t, ht⟩ := hknown.nonDisruptive x hx
    exact roundTrip_iff hlib (fun _ => rfl) (fun t => by cases t <;> decide)
      (fun t a hkey _ => soleNonDisruptive_of_getKey hkey) ⟨t, ht, by simp⟩
      (hclean.nonDisruptive x hx) hy
  have hfields : secActionToAPI lib b = a ↔
      b.flowActions.map (flowActionToAPI lib) = a.flow ∧
        b.nonDisruptiveActions.flatMap (nonDisruptiveActionToAPI lib) = a.nonDisruptive ∧
          b.disruptiveAction.map (disruptiveActionToAPI lib) = a.disruptiveAction := by
    cases a
    rw [secActionToAPI, SecRuleActions.mk.injEq]
    tauto
  rw [hfields, hflowBack, hnonBack, hdisruptiveBack]
  constructor
  · intro hfits
    exact ⟨hfits.2.2, hfits.1, hfits.2.1⟩
  · intro hfits
    exact ⟨hfits.flow, hfits.nonDisruptive, hfits.disruptive⟩

end

lemma plainCrslang_printsActions : plainCrslang.PrintsActions where
  newActionOnly t key a hkey _ h := by
    simp only [plainCrslang, hkey] at h
    cases h
    exact ⟨rfl, rfl, rfl⟩
  newActionWithParam t key value a hkey _ h := by
    simp only [plainCrslang, hkey] at h
    cases h
    refine ⟨rfl, ?_, rfl⟩
    change key ++ ":'" ++ value ++ "'" = key ++ ":" ++ ("'" ++ value ++ "'")
    simp only [String.append_assoc]
    rfl

/-- Actions of every list, each with the value that its type has. -/
def redirectActions : SecRuleActions where
  data := [⟨.known .status, "302"⟩]
  disruptiveAction := some ⟨.known .redirect, "/blocked"⟩
  flow := [⟨.known .skipAfter, "END"⟩]
  nonDisruptive := [⟨.known .setVar, "tx.score=+1"⟩, ⟨.known .log, ""⟩]

theorem secActionToAPI_redirectActions :
    redirectActions.Fits ∧ ∃ b, secActionToCSR plainCrslang redirectActions = .ok b ∧
      secActionToAPI plainCrslang b = redirectActions := by
  have hknown : redirectActions.Known :=
    ⟨by simp [redirectActions], by simp [redirectActions], by simp [redirectActions],
      by simp [redirectActions]⟩
  have hclean : redirectActions.Clean := by
    constructor <;> simp [redirectActions]
    · exact ⟨by decide, by decide, by decide⟩
    · exact ⟨by decide, by decide, by decide⟩
    · exact ⟨by decide, by decide, by decide⟩
    · exact ⟨⟨by decide, by decide, by decide⟩, ⟨by decide, by decide, by decide⟩⟩
  have hfits : redirectActions.Fits := by
    constructor <;> simp [redirectActions, Fits, DisruptiveActionType.hasValue,
      FlowActionType.hasValue, NonDisruptiveActionType.hasValue]
  exact ⟨hfits, _, rfl,
    (secActionToAPI_eq_iff_fits plainCrslang_printsActions hknown hclean rfl).mpr hfits⟩

/-- A rule that delays the request by a second. -/
def pauseActions : SecRuleActions where
  disruptiveAction := some ⟨.known .pause, "1000"⟩

/-- `pause:'1000'` comes back as `pause`. -/
theorem secActionToAPI_pauseActions :
    plainCrslang.PrintsActions ∧ pauseActions.Known ∧ pauseActions.Clean ∧
      ∃ b, secActionToCSR plainCrslang pauseActions = .ok b ∧
        (secActionToAPI plainCrslang b).disruptiveAction = some ⟨.known .pause, ""⟩ ∧
          secActionToAPI plainCrslang b ≠ pauseActions := by
  refine ⟨plainCrslang_printsActions, ?_, ?_, _, rfl, by decide, by decide⟩
  · exact ⟨by simp [pauseActions], by simp [pauseActions], by simp [pauseActions],
      by simp [pauseActions]⟩
  · refine ⟨by simp [pauseActions], ?_, by simp [pauseActions], by simp [pauseActions]⟩
    simp only [pauseActions, Option.mem_some_iff, forall_eq']
    exact ⟨by decide, by decide, by decide⟩

end KubeWaf.Seclang
