import KubeWaf.Lib.GoStrings
import Mathlib

/-!
# What the WAF webhook checks of the extra metric labels

The part of `validate` in `internal/webhook/waf.go` that goes over `spec.metrics.extraLabels`.
A label is a key and a value. Each one is judged by itself.
-/

namespace KubeWaf.Webhook

open Lib List

abbrev Label := List Char × List Char

/-- `[A-Za-z0-9]` -/
def isAlnum (c : Char) : Bool :=
  ('A' ≤ c && c ≤ 'Z') || ('a' ≤ c && c ≤ 'z') || ('0' ≤ c && c ≤ '9')

/-- `extraLabelKeyRE`: `^[A-Za-z0-9][A-Za-z0-9_.-]*$` -/
def extraLabelKeyRE : List Char → Bool
  | [] => false
  | c :: k => isAlnum c && k.all fun d => isAlnum d || d == '_' || d == '.' || d == '-'

/-- `extraLabelValueRE`: `^[A-Za-z0-9.:_-]*$` -/
def extraLabelValueRE (v : List Char) : Bool :=
  v.all fun d => isAlnum d || d == '.' || d == ':' || d == '_' || d == '-'

def extraLabelSpoofFrags : List (List Char) :=
  ["_waf_namespace=".toList, "_waf_name=".toList, "_engine=".toList, "_owner=".toList,
    "_phase=".toList, "_ruleid=".toList, "_severity=".toList, "_tag=".toList]

/-- The keys of `reservedMetricLabelKey`. -/
def reservedMetricLabelKeys : List (List Char) :=
  ["waf_namespace".toList, "waf_name".toList, "engine".toList, "owner".toList]

def reservedMetricLabelKey (k : List Char) : Bool := k ∈ reservedMetricLabelKeys

def extraLabelSpoofsStatsTags (k v : List Char) : Bool :=
  let composed := '_' :: k ++ '=' :: v
  extraLabelSpoofFrags.any fun f =>
    Go.contains composed f || Go.contains k f || Go.contains v f

/-- A `field.Invalid`: the path of the field and the detail. -/
structure FieldError where
  field : String
  detail : String
  deriving DecidableEq

/-- The errors for one entry of `extraLabels`. -/
def validateExtraLabel (l : Label) : List FieldError :=
  let path := "spec.metrics.extraLabels[" ++ String.ofList l.1 ++ "]"
  if reservedMetricLabelKey l.1 then
    [⟨path,
      "cannot override reserved identity keys (waf_namespace, waf_name, engine, owner)"⟩]
  else
    (if extraLabelKeyRE l.1 then [] else [⟨path, "must match ^[A-Za-z0-9][A-Za-z0-9_.-]*$"⟩])
    ++ (if ¬ extraLabelValueRE l.2 ∨ extraLabelSpoofsStatsTags l.1 l.2 then
          [⟨path, "must not contain '=' or reserved stats_tags fragments"⟩]
        else [])

/-- The loop over `extraLabels`. Go visits the entries of the map in some order. -/
def validateExtraLabels (labels : List Label) : List FieldError :=
  labels.flatMap validateExtraLabel

/-! ## What an accepted label is like -/

/-- The webhook lets a label through. -/
structure AcceptedLabel (l : Label) : Prop where
  notReserved : l.1 ∉ reservedMetricLabelKeys
  key : extraLabelKeyRE l.1 = true
  value : extraLabelValueRE l.2 = true
  noFragment : ∀ f ∈ extraLabelSpoofFrags, ¬ f <:+: '_' :: l.1 ++ '=' :: l.2

lemma acceptedLabel_of_validate {l : Label} (h : validateExtraLabel l = []) :
    AcceptedLabel l := by
  rw [validateExtraLabel] at h
  by_cases hreserved : reservedMetricLabelKey l.1
  · rw [if_pos hreserved] at h
    exact absurd h (cons_ne_nil _ _)
  · rw [if_neg hreserved, append_eq_nil_iff] at h
    obtain ⟨hkey, hvalue⟩ := h
    have hkey' : extraLabelKeyRE l.1 = true := by
      by_contra hk
      rw [if_neg hk] at hkey
      exact cons_ne_nil _ _ hkey
    have hvalue' : ¬ (¬ extraLabelValueRE l.2 ∨ extraLabelSpoofsStatsTags l.1 l.2) := by
      intro hv
      rw [if_pos hv] at hvalue
      exact cons_ne_nil _ _ hvalue
    rw [not_or, not_not] at hvalue'
    refine ⟨fun hmem => hreserved (decide_eq_true hmem), hkey', hvalue'.1, ?_⟩
    intro f hf hinfix
    refine hvalue'.2 (any_eq_true.mpr ⟨f, hf, ?_⟩)
    simp only [Go.contains_iff_infix.mpr hinfix, Bool.true_or]

lemma acceptedLabel_of_mem {labels : List Label} (h : validateExtraLabels labels = [])
    {l : Label} (hl : l ∈ labels) : AcceptedLabel l :=
  acceptedLabel_of_validate (flatMap_eq_nil_iff.mp h l hl)

lemma isAlnum_equals : isAlnum '=' = false := by decide

lemma AcceptedLabel.equals_notMem_key {l : Label} (h : AcceptedLabel l) : '=' ∉ l.1 := by
  have hkey := h.key
  intro hmem
  cases hk : l.1 with
  | nil =>
    rw [hk] at hmem
    exact absurd hmem not_mem_nil
  | cons c k =>
    rw [hk] at hkey hmem
    simp only [extraLabelKeyRE, Bool.and_eq_true, all_eq_true] at hkey
    rcases mem_cons.mp hmem with rfl | hmem
    · exact absurd hkey.1 (by rw [isAlnum_equals]; decide)
    · exact absurd (hkey.2 _ hmem) (by decide)

lemma AcceptedLabel.equals_notMem_value {l : Label} (h : AcceptedLabel l) : '=' ∉ l.2 := by
  intro hmem
  have hvalue := all_eq_true.mp h.value _ hmem
  exact absurd hvalue (by decide)

end KubeWaf.Webhook
