import KubeWaf.Lib.ExceptLemmas
import KubeWaf.Probe.Assemble

/-!
# The document of a probe and the directives of the dataplane

The probe splits the text of each rule into lines and trims them; the dataplane hands the texts
over as they are. Both are compared by their lines that are not empty, trimmed: no step of the
probe's assembly changes those.
-/

namespace KubeWaf.Probe

open Lib Seclang References List

/-- The lines of a list of directives that are not empty, trimmed. -/
def directiveLines (directives : List String) : List (List Char) :=
  directives.flatMap fun d => Go.trimmedLines d.toList

/-! ## Lines through the assembly -/

lemma flatMap_trimmedLines_filter {p : List Char → Bool} {texts : List (List Char)}
    (hp : ∀ t ∈ texts, p t = false → Go.trimmedLines t = []) :
    (texts.filter p).flatMap Go.trimmedLines = texts.flatMap Go.trimmedLines := by
  induction texts with
  | nil => rfl
  | cons t texts ih =>
    have ih := ih fun t' ht' => hp t' (mem_cons_of_mem t ht')
    rw [flatMap_cons]
    by_cases ht : p t = true
    · rw [filter_cons_of_pos ht, flatMap_cons, ih]
    · rw [filter_cons_of_neg ht, ih, hp t mem_cons_self (Bool.not_eq_true _ ▸ ht), nil_append]

lemma trimmedLines_joinDocument (parts : List (List (List Char))) :
    Go.trimmedLines (joinDocument parts) = parts.flatten.flatMap Go.trimmedLines := by
  have htrim : (parts.flatten.map Go.trim).flatMap Go.trimmedLines
      = parts.flatten.flatMap Go.trimmedLines := by
    rw [flatMap_map]
    exact flatMap_congr fun t _ => Go.trimmedLines_trim t
  rw [joinDocument, Go.trimmedLines_joinLines, flatMap_trimmedLines_filter, htrim]
  intro t _ ht
  have hnil : t = [] := by simpa using ht
  rw [hnil]
  rfl

lemma flatMap_trimmedLines_lines (s : List Char) :
    (Go.lines s).flatMap Go.trimmedLines = Go.trimmedLines s := by
  induction s using Go.linesInduction with
  | last s hs => rw [Go.lines_of_notMem hs, flatMap_singleton]
  | feed a b ha ih =>
    rw [Go.lines_append_cons, flatMap_append, ih, Go.lines_of_notMem ha,
      flatMap_singleton, Go.trimmedLines_append_cons]

lemma flatMap_trimmedLines_splitLines (s : List Char) :
    (splitLines s).flatMap Go.trimmedLines = Go.trimmedLines s := by
  rw [splitLines]
  by_cases hs : s = []
  · rw [if_pos hs, hs]
    rfl
  rw [if_neg hs, flatMap_trimmedLines_filter, flatMap_trimmedLines_lines]
  intro line hline hblank
  have htrim : Go.trim line = [] := by simpa using hblank
  rw [Go.trimmedLines_of_notMem (Go.notMem_of_mem_lines hline), if_pos htrim]

/-! ## The two tunings -/

lemma crsSetupActions_fromWAF (t : Option Dataplane.CRSTuning) :
    crsSetupActions (crsTuningFromWAF t) = Dataplane.crsSetupActions t := by
  cases t with
  | none => rfl
  | some t => rfl

lemma crsExclusions_fromWAF (t : Option Dataplane.CRSTuning) :
    crsExclusions (crsTuningFromWAF t) = Dataplane.crsExclusions t := by
  cases t with
  | none => rfl
  | some t =>
    rw [crsTuningFromWAF, Option.map_some, crsExclusions, Dataplane.crsExclusions]
    simp only [filterMap_map]
    rfl

lemma directives_assembleFromRuleLines (ruleLines : List (List Char)) (crs : Option CRSTuning) :
    Go.trimmedLines (assembleFromRuleLines ruleLines false crs).directives
      = probePreamble ++ (directiveLines (crsSetupActions crs)
        ++ (ruleLines.flatMap Go.trimmedLines ++ directiveLines (crsExclusions crs))) := by
  have hsetup : (if crs.isSome then crsSetupActions crs
      else if false = true then [stampOnly900990] else []) = crsSetupActions crs := by
    cases crs with
    | none => rfl
    | some crs => rfl
  have hpreamble : probePreamble.flatMap Go.trimmedLines = probePreamble := by decide +kernel
  have htexts : ∀ ds : List String,
      (ds.map String.toList).flatMap Go.trimmedLines = directiveLines ds :=
    fun ds => flatMap_map _ _ ds
  rw [assembleFromRuleLines, headLines, hsetup, tailLines, trimmedLines_joinDocument]
  simp [htexts, hpreamble]

/-! ## Items -/

section
variable {α : Type} {lib : Crslang α} {text : List (SeclangDirective α) → String}

lemma seclangLines_of_renderItem {item : LangItem} {res : RenderResult α}
    {ruleLines : List (List Char)} (hres : renderItem lib text item = .ok res)
    (hlines : seclangLines lib text item = .ok ruleLines) :
    ruleLines = splitLines res.secLang.toList := by
  cases item with
  | secRule sr =>
    rw [renderItem] at hres
    cases hrender : renderSecRule lib text sr sr.status.assignedIDs with
    | error e =>
      rw [hrender] at hres
      cases hres
    | ok res' =>
      rw [hrender] at hres
      obtain rfl : res' = res := by simpa using hres
      -- the ids of the status are what an empty list of ids stands for
      have hids : applyAssignedIDs sr sr.status.assignedIDs = applyAssignedIDs sr [] := by
        rw [applyAssignedIDs, applyAssignedIDs]
        cases sr.status.assignedIDs with
        | nil => rfl
        | cons id ids => rfl
      have hconv := renderSecRule_eq_ok hrender
      have htext := renderSecRule_secLang hrender
      rw [hids] at hconv
      rw [seclangLines] at hlines
      cases hensure : ensureRuleIDs (applyAssignedIDs sr []) with
      | error e =>
        simp only [hensure] at hlines
        cases hlines
      | ok u =>
        simp only [hensure, hconv] at hlines
        rw [htext]
        exact (Except.ok.inj hlines).symm
  | secAction sa =>
    rw [renderItem, renderSecAction] at hres
    rw [seclangLines] at hlines
    cases hconv : convertSecAction lib sa with
    | error e =>
      rw [hconv] at hres
      cases hres
    | ok dirs =>
      rw [hconv] at hres hlines
      obtain rfl := Except.ok.inj hres
      exact (Except.ok.inj hlines).symm

lemma flatten_of_forall₂ {items : List LangItem} {results : List (RenderResult α)}
    {ruleLines : List (List (List Char))}
    (hres : List.Forall₂ (fun item res => renderItem lib text item = .ok res) items results)
    (hlines : List.Forall₂ (fun item ls => seclangLines lib text item = .ok ls) items ruleLines) :
    ruleLines = results.map fun res => splitLines res.secLang.toList := by
  induction hres generalizing ruleLines with
  | nil =>
    cases hlines
    rfl
  | cons hitem _ ih =>
    obtain ⟨ls, rest, hls, hrest, rfl⟩ := forall₂_cons_left_iff.mp hlines
    rw [map_cons, ← ih hrest, seclangLines_of_renderItem hitem hls]

lemma ruleLines_of_getSecLang {objects : List Object} {stamp : Bool} {crs : Option CRSTuning}
    {blobs : List String} {asm : AssemblyResult} (hblobs : getSecLang lib text objects = .ok blobs)
    (hasm : assembleResolved lib text objects stamp crs = .ok asm) :
    asm.directives = (assembleFromRuleLines
      (blobs.map fun b => splitLines b.toList).flatten stamp crs).directives := by
  rw [assembleResolved] at hasm
  obtain ⟨ruleLines, hlines, hasm⟩ := bind_eq_ok.mp hasm
  rw [getSecLang] at hblobs
  cases hresults : assemble lib text objects with
  | error e =>
    rw [hresults] at hblobs
    cases hblobs
  | ok results =>
    rw [hresults] at hblobs
    obtain rfl := Except.ok.inj hblobs
    have hflat := flatten_of_forall₂ (mapM_eq_ok.mp hresults) (mapM_eq_ok.mp hlines)
    rw [← pure_eq_ok.mp hasm, hflat, map_map]
    rfl

/-! ## Agreement -/

/-- The probe's document without the stamp has, after the preamble, the lines that
`BuildDirectives` places behind the engine's own directives for a WAF without `crsEnable`. -/
theorem document_eq_directives (objects : List Object) (t : Option Dataplane.CRSTuning)
    {blobs : List String} {asm : AssemblyResult} (hblobs : getSecLang lib text objects = .ok blobs)
    (hasm : assembleResolved lib text objects false (crsTuningFromWAF t) = .ok asm) :
    Go.trimmedLines asm.directives
        = probePreamble ++ (directiveLines (Dataplane.crsSetupActions t)
          ++ (directiveLines blobs ++ directiveLines (Dataplane.crsExclusions t)))
      ∧ ∀ waf : Dataplane.WafDirectives, waf.crsEnable = false → waf.crs = t →
        Dataplane.buildDirectives waf blobs
          = Dataplane.engineDirectives waf
            ++ (Dataplane.crsSetupActions t ++ (blobs ++ Dataplane.crsExclusions t)) := by
  constructor
  · have hrules : (blobs.map fun b => splitLines b.toList).flatten.flatMap Go.trimmedLines
        = directiveLines blobs := by
      rw [← flatMap_def, flatMap_assoc]
      exact flatMap_congr fun b _ => flatMap_trimmedLines_splitLines b.toList
    rw [ruleLines_of_getSecLang hblobs hasm, directives_assembleFromRuleLines, hrules,
      crsSetupActions_fromWAF, crsExclusions_fromWAF]
  · intro waf henable hcrs
    rw [Dataplane.buildDirectives_pathB henable, hcrs]

end

/-- A rule with a marker behind it, listed ahead of a bag whose id the status assigns. -/
def probedObjects : List Object :=
  [{ group := "seclang.kubewaf.io", version := "v1beta1", ns := "shop", name := "late"
     content := .secRule
      { markerAfter := "END", metadata := some { id := 20 }
        matchLinks := [{ vars := [⟨.known .REQUEST_URI, false⟩]
                         operator := { name := .known .rx, value := "x" } }] } {} },
    { group := "seclang.kubewaf.io", version := "v1beta1", ns := "shop", name := "auto"
      content := .secRule
        { secRules := [{ conditions := [{ vars := [⟨.known .REQUEST_URI, false⟩]
                                          operator := { name := .known .rx, value := "y" } }] }] }
        { ruleID := 10, assignedIDs := [10] } }]

def probedTuning : Dataplane.CRSTuning := { paranoiaLevel := some 2, removeByID := [20] }

def probedBlobs : List String := ["SecRule id:10", "SecRule id:20\nSecMarker END"]

theorem document_eq_directives_probed :
    getSecLang plainCrslang plainText probedObjects = .ok probedBlobs
      ∧ ∃ asm, assembleResolved plainCrslang plainText probedObjects false
          (crsTuningFromWAF (some probedTuning)) = .ok asm
        ∧ Go.trimmedLines asm.directives
          = probePreamble ++ (directiveLines (Dataplane.crsSetupActions (some probedTuning))
            ++ (directiveLines probedBlobs
              ++ directiveLines (Dataplane.crsExclusions (some probedTuning)))) := by
  have hblobs : getSecLang plainCrslang plainText probedObjects = .ok probedBlobs := by
    decide +kernel
  have hok : (assembleResolved plainCrslang plainText probedObjects false
      (crsTuningFromWAF (some probedTuning))).isOk = true := by decide +kernel
  refine ⟨hblobs, ?_⟩
  cases hasm : assembleResolved plainCrslang plainText probedObjects false
      (crsTuningFromWAF (some probedTuning)) with
  | error e =>
    rw [hasm] at hok
    cases hok
  | ok asm =>
    exact ⟨asm, rfl, (document_eq_directives probedObjects (some probedTuning) hblobs hasm).1⟩

end KubeWaf.Probe
