import KubeWaf.Crs.FileOrder

/-!
# The markers of a CRS file

A jump of `skipAfter` ends at a marker. One-per-rule mode writes a marker with the last rule of its
group, so a marker comes through exactly if its group has a rule.
-/

namespace KubeWaf.Crs

open Lib Seclang List

section
variable {α : Type} {marker : String} {g : DirectiveGroup α} {file : List (DirectiveGroup α)}

/-- A group of the file ends in a `SecMarker`. -/
def DirectiveGroup.HasMarker (g : DirectiveGroup α) : Prop := g.marker.name = .secMarker

instance (g : DirectiveGroup α) : Decidable g.HasMarker :=
  inferInstanceAs (Decidable (g.marker.name = .secMarker))

/-- A `SecRule` was written for a rule of the file, with or without a marker. -/
def IsFor (lib : Crslang α) (r : RuleWithCondition α) (g : Generated) : Prop :=
  ∃ marker, convertCrsRuleToSingleForm lib r marker = .ok g.secRule.spec

/-- A `SecRule` carries a marker. An empty `markerAfter` is none. -/
def CarriesMarker (marker : String) (g : Generated) : Prop :=
  marker ≠ "" ∧ g.secRule.spec.markerAfter = marker

instance (marker : String) (g : Generated) : Decidable (CarriesMarker marker g) :=
  inferInstanceAs (Decidable (_ ∧ _))

/-- Every marker of the file is carried by one of the written rules. -/
structure MarkersKept (lib : Crslang α) (file : List (DirectiveGroup α)) (gs : List Generated) :
    Prop where
  /-- The rule that carries a marker has those in front of the marker up to itself, and those
  behind the marker behind it. -/
  placed : ∀ pre g post, file = pre ++ g :: post → g.HasMarker →
    ∃ before last after, gs = before ++ last :: after ∧ CarriesMarker g.marker.parameter last ∧
      List.Forall₂ (IsFor lib) (fileRules (pre ++ [g])) (before ++ [last]) ∧
      List.Forall₂ (IsFor lib) (fileRules post) after
  /-- Each name is carried as often as it is the name of a marker. -/
  once : ∀ marker, marker ≠ "" → gs.countP (fun g => CarriesMarker marker g) =
    file.countP fun g => g.HasMarker ∧ g.marker.parameter = marker

/-! ## Entries -/

lemma groupEntries_append_singleton (marker : String) (rs : List (RuleWithCondition α))
    (r : RuleWithCondition α) :
    groupEntries marker (rs ++ [r]) = rs.map (⟨·, ""⟩) ++ [⟨r, marker⟩] := by
  induction rs with
  | nil => rfl
  | cons r' rs ih =>
    have hcons : groupEntries marker (r' :: (rs ++ [r])) =
        ⟨r', ""⟩ :: groupEntries marker (rs ++ [r]) := by
      cases hrs : rs ++ [r] with
      | nil => exact absurd hrs (by simp)
      | cons r'' rs' => rfl
    rw [cons_append, hcons, ih]
    rfl

lemma markerName_eq (hmarker : marker ≠ "") :
    g.markerName = marker ↔ g.HasMarker ∧ g.marker.parameter = marker := by
  unfold DirectiveGroup.markerName DirectiveGroup.HasMarker
  split_ifs with h
  · exact ⟨fun heq => ⟨h, heq⟩, And.right⟩
  · exact ⟨fun heq => absurd heq.symm hmarker, fun heq => absurd heq.1 h⟩

lemma groupEntries_countP (g : DirectiveGroup α) (hmarker : marker ≠ "") :
    (groupEntries g.markerName g.rules).countP (fun e => e.marker = marker) =
      if g.rules ≠ [] ∧ g.HasMarker ∧ g.marker.parameter = marker then 1 else 0 := by
  rcases eq_nil_or_concat g.rules with hrules | ⟨rs, r, hrules⟩
  · rw [hrules, if_neg (by simp)]
    rfl
  · have hplain : (rs.map fun r => (⟨r, ""⟩ : RuleEntry α)).countP
        (fun e => e.marker = marker) = 0 := by
      rw [countP_eq_zero]
      intro e he
      obtain ⟨r, _, rfl⟩ := mem_map.mp he
      simpa using hmarker.symm
    have hne : rs ++ [r] ≠ [] := by simp
    rw [hrules, concat_eq_append, groupEntries_append_singleton, countP_append, hplain,
      countP_singleton]
    simp [markerName_eq hmarker, hne]

lemma fileEntries_countP (file : List (DirectiveGroup α)) (hmarker : marker ≠ "") :
    (fileEntries file).countP (fun e => e.marker = marker) =
      file.countP fun g => g.rules ≠ [] ∧ g.HasMarker ∧ g.marker.parameter = marker := by
  induction file with
  | nil => rfl
  | cons g file ih =>
    have hcons : fileEntries (g :: file) =
        groupEntries g.markerName g.rules ++ fileEntries file := rfl
    rw [hcons, countP_append, groupEntries_countP g hmarker, ih, countP_cons, Nat.add_comm]
    simp

/-! ## Written rules -/

section
variable {lib : Crslang α} {entries : List (RuleEntry α)} {gs : List Generated}

lemma countP_carriesMarker (h : List.Forall₂ (WrittenFrom lib) entries gs) (hmarker : marker ≠ "") :
    gs.countP (fun g => CarriesMarker marker g) =
      entries.countP fun e => e.marker = marker := by
  induction h with
  | nil => rfl
  | cons he _ ih =>
    rw [countP_cons, countP_cons, ih]
    simp [CarriesMarker, he.markerAfter, hmarker]

lemma isFor_of_writtenFrom (h : List.Forall₂ (WrittenFrom lib) entries gs) :
    List.Forall₂ (IsFor lib) (entries.map (·.rule)) gs := by
  rw [forall₂_map_left_iff]
  exact h.imp fun e g he => ⟨e.marker, he.spec⟩

end

lemma fileEntries_append (file file' : List (DirectiveGroup α)) :
    fileEntries (file ++ file') = fileEntries file ++ fileEntries file' :=
  flatMap_append

lemma countP_lt_of_rules_eq_nil (hg : g ∈ file) (hmarker : g.HasMarker) (hrules : g.rules = []) :
    (file.countP fun g' => g'.rules ≠ [] ∧ g'.HasMarker ∧
        g'.marker.parameter = g.marker.parameter) <
      file.countP fun g' => g'.HasMarker ∧ g'.marker.parameter = g.marker.parameter := by
  have hle : ∀ l : List (DirectiveGroup α),
      (l.countP fun g' => g'.rules ≠ [] ∧ g'.HasMarker ∧
        g'.marker.parameter = g.marker.parameter) ≤
      l.countP fun g' => g'.HasMarker ∧ g'.marker.parameter = g.marker.parameter := by
    intro l
    apply countP_mono_left
    intro g' _ h
    rw [decide_eq_true_eq] at h ⊢
    exact h.2
  obtain ⟨pre, post, rfl⟩ := append_of_mem hg
  have hpre := hle pre
  have hpost := hle post
  rw [countP_append, countP_append, countP_cons, countP_cons,
    if_neg (by simp [hrules]), if_pos (by simpa using hmarker)]
  omega

lemma placed_of_rules_ne_nil {lib : Crslang α} {pre post : List (DirectiveGroup α)}
    {gs : List Generated} (hsplit : file = pre ++ g :: post)
    (hwritten : List.Forall₂ (WrittenFrom lib) (fileEntries file) gs) (hmarker : g.HasMarker)
    (hrules : g.rules ≠ []) (hname : g.marker.parameter ≠ "") :
    ∃ before last after, gs = before ++ last :: after ∧ CarriesMarker g.marker.parameter last ∧
      List.Forall₂ (IsFor lib) (fileRules (pre ++ [g])) (before ++ [last]) ∧
      List.Forall₂ (IsFor lib) (fileRules post) after := by
  have hfile : fileEntries file = fileEntries (pre ++ [g]) ++ fileEntries post := by
    rw [← fileEntries_append, hsplit, append_assoc, singleton_append]
  rw [hfile] at hwritten
  obtain ⟨front, after, rfl, hfront, hafter⟩ := exists_append_of_forall₂ hwritten
  have hrulesFront := isFor_of_writtenFrom hfront
  have hrulesAfter := isFor_of_writtenFrom hafter
  rw [fileEntries_rules] at hrulesFront hrulesAfter
  -- The last entry of the group is the one with the marker.
  obtain ⟨rs, r, hconcat⟩ := (eq_nil_or_concat g.rules).resolve_left hrules
  have hentries : fileEntries (pre ++ [g]) =
      (fileEntries pre ++ rs.map (⟨·, ""⟩)) ++ [⟨r, g.markerName⟩] := by
    have hgroup : fileEntries [g] = groupEntries g.markerName g.rules := by simp [fileEntries]
    rw [fileEntries_append, hgroup, hconcat, concat_eq_append,
      groupEntries_append_singleton, append_assoc]
  rw [hentries] at hfront
  obtain ⟨before, last', rfl, _, hlasts⟩ := exists_append_of_forall₂ hfront
  obtain ⟨last, rfl, hlast⟩ : ∃ last, last' = [last] ∧ WrittenFrom lib ⟨r, g.markerName⟩ last := by
    cases hlasts with
    | cons h hnil =>
      cases hnil
      exact ⟨_, rfl, h⟩
  refine ⟨before, last, after, by simp, ⟨hname, ?_⟩, hrulesFront, hrulesAfter⟩
  rw [hlast.markerAfter]
  exact (markerName_eq hname).mpr ⟨hmarker, rfl⟩

/-- One-per-rule mode keeps the markers of a file exactly if each of them has a name and stands
behind a rule of its group. -/
theorem markersKept_iff (lib : Crslang α) (labels : List (String × String))
    (ns namePrefix fileCRName : String) (file : List (DirectiveGroup α)) {gs : List Generated}
    (hgs : writeOnePerRuleMode lib labels ns namePrefix fileCRName (fileEntries file) = .ok gs) :
    MarkersKept lib file gs ↔
      ∀ g ∈ file, g.HasMarker → g.rules ≠ [] ∧ g.marker.parameter ≠ "" := by
  have hwritten := (generateRules_writtenFrom hgs).1
  constructor
  · intro hkept g hg hmarker
    obtain ⟨pre, post, hsplit⟩ := append_of_mem hg
    obtain ⟨_, last, _, _, hlast, _, _⟩ := hkept.placed pre g post hsplit hmarker
    have hname : g.marker.parameter ≠ "" := hlast.1
    refine ⟨?_, hname⟩
    intro hrules
    have hcount := hkept.once g.marker.parameter hname
    rw [countP_carriesMarker hwritten hname, fileEntries_countP file hname] at hcount
    exact absurd hcount (Nat.ne_of_lt (countP_lt_of_rules_eq_nil hg hmarker hrules))
  · intro hgroups
    refine ⟨?_, ?_⟩
    · intro pre g post hsplit hmarker
      obtain ⟨hrules, hname⟩ := hgroups g (by rw [hsplit]; simp) hmarker
      exact placed_of_rules_ne_nil hsplit hwritten hmarker hrules hname
    · intro marker hmarker
      rw [countP_carriesMarker hwritten hmarker, fileEntries_countP file hmarker]
      apply countP_congr
      intro g hg
      simp only [decide_eq_true_eq]
      exact ⟨And.right, fun h => ⟨(hgroups g hg h.1).1, h⟩⟩

end

theorem ascendingFile_markersKept :
    writeOnePerRuleMode plainCrslang [] "" "crs-" "crs" (fileEntries ascendingFile) =
      .ok ascendingRules ∧ MarkersKept plainCrslang ascendingFile ascendingRules := by
  have hgs : writeOnePerRuleMode plainCrslang [] "" "crs-" "crs" (fileEntries ascendingFile) =
      .ok ascendingRules := by decide
  exact ⟨hgs, (markersKept_iff plainCrslang [] "" "crs-" "crs" ascendingFile hgs).mpr (by decide)⟩

/-- A rule that jumps over a group which has nothing but its marker. -/
def emptyGroupFile : List (DirectiveGroup PlainAction) :=
  [{ directives := [.rule
      { head := testLink 13 .REQUEST_URI [{ key := "skipAfter", param := some "END" }] }] },
    { directives := [.other], marker := ⟨.secMarker, "END"⟩ }]

/-- The target of the jump is written nowhere. -/
theorem emptyGroupFile_marker_lost :
    writeOnePerRuleMode plainCrslang [] "" "crs-" "crs" (fileEntries emptyGroupFile) =
        .ok [skipRule 13 [⟨.known .skipAfter, "END"⟩] ""] ∧
      (emptyGroupFile.map fun g => decide (g.HasMarker ∧ g.marker.parameter = "END")) =
        [false, true] ∧
      ¬MarkersKept plainCrslang emptyGroupFile [skipRule 13 [⟨.known .skipAfter, "END"⟩] ""] := by
  refine ⟨by decide, by decide, ?_⟩
  intro hkept
  exact absurd (hkept.once "END" (by decide)) (by decide)

end KubeWaf.Crs
