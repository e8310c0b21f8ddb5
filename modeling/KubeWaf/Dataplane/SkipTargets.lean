import KubeWaf.Dataplane.Directives
import KubeWaf.DataFiles.Discover
import KubeWaf.References.Assembly

/-!
# Jumps across dropped rules

A rule is rendered together with the marker that stands behind it, and `IgnoreUnknown` drops the
text of a rule as a whole. A marker is lost with its rule, so a jump to it survives only where the
rule with the marker needs no file that the jumping rule does not need.
-/

namespace KubeWaf.Dataplane

open Lib Seclang References DataFiles

section
variable {α : Type}

/-- The markers of a rendered object. -/
def markersOf (res : RenderResult α) : List String :=
  res.directives.filterMap fun d => match d with
    | .secMarker name => some name
    | .rule _ => none

/-- The targets of the `skipAfter` actions of a rendered object, on any link of a chain. -/
def skipTargets (lib : Crslang α) (res : RenderResult α) : List String :=
  res.directives.flatMap fun d => match d with
    | .rule r => r.links.flatMap fun link =>
        (link.actions.flowActions.filter fun a => lib.getKey a = "skipAfter").map (actionValue lib)
    | .secMarker _ => []

/-- The directives of a WAF with the rendered objects. -/
def wafDirectives (waf : WafDirectives) (results : List (RenderResult α)) : List (List Char) :=
  (buildDirectives waf (results.map (·.secLang))).map String.toList

/-- The object's text is among the directives. -/
def PublishedIn (directives : List (List Char)) (res : RenderResult α) : Prop :=
  res.secLang.toList ∈ directives

/-- Each jump that is published has its target published, if any object has it. -/
def TargetsKept (lib : Crslang α) (results : List (RenderResult α))
    (published : List (List Char)) : Prop :=
  ∀ marker : String, ∀ jump ∈ results, PublishedIn published jump → marker ∈ skipTargets lib jump →
    (∃ target ∈ results, marker ∈ markersOf target) →
    ∃ target ∈ results, PublishedIn published target ∧ marker ∈ markersOf target

/-- For each jump with a target, some object with the target references no missing file that the
jump does not reference as well. -/
def TargetsCovered (lib : Crslang α) (results : List (RenderResult α))
    (mayMiss : List (List Char)) : Prop :=
  ∀ marker : String, ∀ jump ∈ results, marker ∈ skipTargets lib jump →
    (∃ target ∈ results, marker ∈ markersOf target) →
    ∃ target ∈ results, marker ∈ markersOf target
      ∧ ∀ base ∈ referenced target.secLang.toList, base ∈ mayMiss →
        base ∈ referenced jump.secLang.toList

variable {waf : WafDirectives} {results : List (RenderResult α)} {missing : List (List Char)}
  {res : RenderResult α}

lemma mem_wafDirectives (hres : res ∈ results) : PublishedIn (wafDirectives waf results) res := by
  refine List.mem_map_of_mem ?_
  rw [buildDirectives]
  have hblob : res.secLang ∈ results.map (·.secLang) := List.mem_map_of_mem hres
  simp [hblob]

lemma publishedIn_drop_iff (hres : res ∈ results) :
    PublishedIn (dropSecLangLinesWithBasenames (wafDirectives waf results) missing) res
      ↔ ∀ base ∈ missing, base ∉ referenced res.secLang.toList := by
  rw [PublishedIn, mem_dropSecLangLinesWithBasenames]
  exact ⟨fun h => h.2, fun h => ⟨mem_wafDirectives hres, h⟩⟩

variable {lib : Crslang α}

lemma targetsKept_of_covered
    (hcovered : TargetsCovered lib results (scanPmFromFileBasenames (wafDirectives waf results)))
    (hmissing : ∀ base ∈ missing, base ∈ scanPmFromFileBasenames (wafDirectives waf results)) :
    TargetsKept lib results
      (dropSecLangLinesWithBasenames (wafDirectives waf results) missing) := by
  intro marker jump hjump hpublished hskip hset
  obtain ⟨target, htarget, hmarker, hcover⟩ := hcovered marker jump hjump hskip hset
  rw [publishedIn_drop_iff hjump] at hpublished
  refine ⟨target, htarget, (publishedIn_drop_iff htarget).mpr fun base hbase href => ?_, hmarker⟩
  exact hpublished base hbase (hcover base href (hmissing base hbase))

/-- For all missing files the jumps that are kept have their targets, exactly when the targets are
covered. -/
theorem targetsKept_iff (text : List (SeclangDirective α) → String) (objects : List Object)
    (waf : WafDirectives) (_hresults : assemble lib text objects = .ok results) :
    (∀ missing : List (List Char),
      (∀ base ∈ missing, base ∈ scanPmFromFileBasenames (wafDirectives waf results)) →
      TargetsKept lib results
        (dropSecLangLinesWithBasenames (wafDirectives waf results) missing))
      ↔ TargetsCovered lib results (scanPmFromFileBasenames (wafDirectives waf results)) := by
  constructor
  · intro h marker jump hjump hskip hset
    -- all files are missing but those of the jump
    have hmem : ∀ base, base ∈ (scanPmFromFileBasenames (wafDirectives waf results)).filter
          (fun base => base ∉ referenced jump.secLang.toList)
        ↔ base ∈ scanPmFromFileBasenames (wafDirectives waf results)
          ∧ base ∉ referenced jump.secLang.toList := by
      intro base
      rw [List.mem_filter, decide_eq_true_eq]
    obtain ⟨target, htarget, hpublished, hmarker⟩ := h _ (fun base hbase => ((hmem base).mp hbase).1)
      marker jump hjump
      ((publishedIn_drop_iff hjump).mpr fun base hbase => ((hmem base).mp hbase).2) hskip hset
    rw [publishedIn_drop_iff htarget] at hpublished
    refine ⟨target, htarget, hmarker, fun base href hscan => ?_⟩
    by_contra hjumpRef
    exact hpublished base ((hmem base).mpr ⟨hscan, hjumpRef⟩) href
  · exact fun hcovered missing hmissing => targetsKept_of_covered hcovered hmissing

end

/-- A rule that jumps to `END`, and one behind it that has the marker. -/
def jumpObjects (operator : OperatorType) (value : String) : List Object :=
  [ruleObject "jump"
      { metadata := some { id := 10 }
        matchLinks := [uriMatch .rx "x"]
        actions := some { flow := [⟨.known .skipAfter, "END"⟩] } },
    ruleObject "last"
      { metadata := some { id := 20 }, markerAfter := "END"
        matchLinks := [uriMatch operator value] }]

/-- What the objects are rendered to. -/
def jumpResults (operator : OperatorType) (value : String) : List (RenderResult PlainAction) :=
  match assemble plainCrslang linesText (jumpObjects operator value) with
  | .ok results => results
  | .error _ => []

/-- The rule with the marker reads no file. -/
theorem targetsKept_plain :
    assemble plainCrslang linesText (jumpObjects .rx "y") = .ok (jumpResults .rx "y")
      ∧ ∀ missing : List (List Char),
        (∀ base ∈ missing,
          base ∈ scanPmFromFileBasenames (wafDirectives {} (jumpResults .rx "y"))) →
        TargetsKept plainCrslang (jumpResults .rx "y")
          (dropSecLangLinesWithBasenames (wafDirectives {} (jumpResults .rx "y")) missing) := by
  have hresults : assemble plainCrslang linesText (jumpObjects .rx "y")
      = .ok (jumpResults .rx "y") := by decide +kernel
  refine ⟨hresults, (targetsKept_iff linesText (jumpObjects .rx "y") {} hresults).mpr ?_⟩
  have hfree : ∀ res ∈ jumpResults .rx "y", referenced res.secLang.toList = [] := by
    decide +kernel
  intro marker jump hjump hskip ⟨target, htarget, hmarker⟩
  refine ⟨target, htarget, hmarker, fun base hbase => ?_⟩
  rw [hfree target htarget] at hbase
  exact absurd hbase List.not_mem_nil

/-- The rule with the marker reads `paths.data`: in a namespace without that file, the resolution
is Ready, the jump is published and its target is not. -/
theorem targetsKept_lost :
    let results := jumpResults .pmFromFile "paths.data"
    let crs : CrsData := ⟨fun _ => false, fun _ => .error "file does not exist"⟩
    let res := discoverFor (fun _ => "") crs { name := "shop" } ⟨"shop", "IgnoreUnknown"⟩
      (wafDirectives {} results) []
    assemble plainCrslang linesText (jumpObjects .pmFromFile "paths.data") = .ok results
      ∧ res.ready = true ∧ ¬TargetsKept plainCrslang results res.directives := by
  intro results crs res
  -- one evaluation of the resolution for all that is read off it
  have hfacts : (assemble plainCrslang linesText (jumpObjects .pmFromFile "paths.data") = .ok results
        ∧ res.ready = true)
      ∧ (∃ jump ∈ results,
        jump.secLang.toList ∈ res.directives ∧ "END" ∈ skipTargets plainCrslang jump)
      ∧ (∃ target ∈ results, "END" ∈ markersOf target)
      ∧ ∀ target ∈ results,
        target.secLang.toList ∈ res.directives → "END" ∉ markersOf target := by decide +kernel
  obtain ⟨⟨hresults, hready⟩, ⟨jump, hmem, hpublished, hskip⟩, htarget, hlost⟩ := hfacts
  refine ⟨hresults, hready, fun h => ?_⟩
  obtain ⟨target, hmem', hpublished', hmarker⟩ := h "END" jump hmem hpublished hskip htarget
  exact hlost target hmem' hpublished' hmarker

end KubeWaf.Dataplane
