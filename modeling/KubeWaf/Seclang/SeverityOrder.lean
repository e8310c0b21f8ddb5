import KubeWaf.Lib.MarkedText
import KubeWaf.Seclang.CollapseTheorems

/-!
# The loop over the severity names

The last step of `collapseSecLangLineContinuations` loops over the Go map of the severity names. The
letter `s` starts each of its patterns and stands nowhere else in them, so that the replacements do
not get in each other's way: the order of the map is of no consequence (`severityLoop_order`).
-/

namespace KubeWaf.Seclang

open Lib List

/-- The name as the loop looks for it, in upper or in lower case. -/
def Severity.written (sev : Severity) (lower : Bool) : List Char :=
  if lower then sev.name.map Go.toLower else sev.name

/-- The loop over the names in an order of the map. -/
def severityLoop (run : MapOrder) (s : List Char) : List Char :=
  applySteps (stepsBehind run.order) s

/-- A replacement of the loop, by what stands behind the `s`. -/
def severityMark (sev : Severity) (lower : Bool) : MarkedRule 's' where
  lit := "everity:".toList ++ sev.written lower
  new := "everity:".toList ++ [sev.level]
  lit_mark := by cases sev <;> cases lower <;> decide
  new_mark := by cases sev <;> decide

def severityRules (order : List Severity) : List (MarkedRule 's') :=
  order.flatMap fun sev => [severityMark sev false, severityMark sev true]

lemma severityLoop_eq (run : MapOrder) (s : List Char) :
    severityLoop run s = (severityRules run.order).foldl (fun s e => replaceAll e.matcher s) s := by
  have hsteps : stepsBehind run.order = (severityRules run.order).map MarkedRule.matcher := by
    rw [stepsBehind, severityRules, map_flatMap]
    rfl
  rw [severityLoop, applySteps, hsteps, foldl_map]

lemma severityRules_perm (run run' : MapOrder) :
    (severityRules run.order).Perm (severityRules run'.order) :=
  (run.perm.trans run'.perm.symm).flatMap_right _

lemma separate_severityRules (run : MapOrder) : MarkedRule.Separate (severityRules run.order) := by
  have hall : MarkedRule.Separate (severityRules severities) := by
    unfold MarkedRule.Separate
    decide +kernel
  have hmem : ∀ e ∈ severityRules run.order, e ∈ severityRules severities :=
    fun e he => (severityRules_perm run declaredOrder).mem_iff.mp he
  exact fun e he e' he' => hall e (hmem e he) e' (hmem e' he')

lemma severityRule_mem (run : MapOrder) (sev : Severity) (lower : Bool) :
    severityMark sev lower ∈ severityRules run.order := by
  refine mem_flatMap.mpr ⟨sev, run.perm.mem_iff.mpr (by cases sev <;> decide), ?_⟩
  cases lower <;> simp

theorem severityLoop_order (s : List Char) (run run' : MapOrder) :
    severityLoop run s = severityLoop run' s ∧
      ∀ (sev : Severity) (lower : Bool),
        ¬"severity:".toList ++ sev.written lower <:+: severityLoop run s := by
  have hsep := separate_severityRules run
  rw [severityLoop_eq, severityLoop_eq]
  refine ⟨MarkedRule.foldl_replaceAll_perm hsep (severityRules_perm run run') s, ?_⟩
  intro sev lower
  exact MarkedRule.not_infix_foldl_replaceAll hsep (severityRule_mem run sev lower) s

end KubeWaf.Seclang
