import KubeWaf.DataFiles.Discover

/-!
# The lists packaged with a RuleSet

`phraseListRefs` and `ipListRefs` name lists in the namespace of their RuleSet.
`DiscoverAndResolvePhraseFiles` merges the names of all resolved RuleSets and looks them up in the
namespace of the WAF, so that its refusals are right only as far as the two lookups agree.
-/

namespace KubeWaf.DataFiles

open Lib List

/-- An object that the references of a WAF resolve to, with the fields that are read of a
RuleSet. -/
structure ResolvedObject where
  kind : String
  ns : String
  lists : RuleSetLists := {}

/-- The objects that `collectRuleSetLocalRefs` looks at. -/
def resolvedRuleSets (resolved : List ResolvedObject) : List ResolvedObject :=
  resolved.filter (·.kind = "RuleSet")

/-- A RuleSet names a list that is missing or not Ready, in the namespace that `place` gives for
it. -/
def NamesUnready (cluster : String → Namespace) (lists : Namespace → List DataList)
    (refs : RuleSetLists → List String) (place : ResolvedObject → String)
    (resolved : List ResolvedObject) : Prop :=
  ∃ rs ∈ resolvedRuleSets resolved, ∃ name ∈ refs rs.lists, name ≠ "" ∧
    ((lists (cluster (place rs))).find? (·.name = name)).any (·.ready) = false

/-- A result that refuses to publish, for this reason. -/
def PhraseFilesResult.Refuses (res : PhraseFilesResult) (reason : String) : Prop :=
  res.ready = false ∧ res.conditionReason = reason

/-! ## The check -/

lemma checkListRefs_eq_none {field kind : String} {lists : List DataList} {names : List String} :
    checkListRefs field kind lists names = none
      ↔ ∀ name ∈ names, (lists.find? (·.name = name)).any (·.ready) = true := by
  rw [checkListRefs, findSome?_eq_none_iff]
  refine forall₂_congr fun name _ => ?_
  cases lists.find? (·.name = name) with
  | none => simp
  | some l => cases hready : l.ready <;> simp [hready]

lemma checkListRefs_ne_none (cluster : String → Namespace) (ns : String) (field kind : String)
    (lists : Namespace → List DataList) (refs : RuleSetLists → List String)
    (resolved : List ResolvedObject) :
    checkListRefs field kind (lists (cluster ns))
        (collectRuleSetLocalRefs refs ((resolvedRuleSets resolved).map (·.lists))) ≠ none
      ↔ NamesUnready cluster lists refs (fun _ => ns) resolved := by
  rw [Ne, checkListRefs_eq_none, collectRuleSetLocalRefs, NamesUnready]
  simp only [mem_dedup, mem_filter, mem_flatMap, mem_map,
    exists_exists_and_eq_and, decide_eq_true_eq, not_forall, Bool.not_eq_true, exists_prop]
  constructor
  · intro h
    obtain ⟨name, ⟨⟨rs, hrs, hname⟩, hne⟩, hunready⟩ := h
    exact ⟨rs, hrs, name, hname, hne, hunready⟩
  · intro h
    obtain ⟨rs, hrs, name, hname, hne, hunready⟩ := h
    exact ⟨name, ⟨⟨rs, hrs, hname⟩, hne⟩, hunready⟩

/-! ## Reasons -/

/-- The reasons of the two checks. -/
def packagingReasons : List String := ["PhraseListRefNotReady", "IPListRefNotReady"]

lemma resolveStock_reason {crs : CrsData} {ns : Namespace} {base : List Char} {r : Refusal}
    (h : resolveStock crs ns base = .error r) : r.reason ∉ packagingReasons := by
  simp only [resolveStock] at h
  repeat' split at h
  all_goals cases h
  all_goals simp [packagingReasons]

lemma gather_reason {crs : CrsData} {ns : Namespace} {bases : List (List Char)} {g : Gathered}
    {r : Refusal} (h : (gather crs ns bases g).2 = some r) : r.reason ∉ packagingReasons := by
  induction bases generalizing g with
  | nil => cases h
  | cons base bases ih =>
    rw [gather] at h
    split at h
    · split at h
      · next hstock =>
        cases h
        exact resolveStock_reason hstock
      · exact ih h
    · split at h
      · next hcustom =>
        cases h
        rw [resolveCustom] at hcustom
        split at hcustom
        · cases hcustom
          simp [packagingReasons]
        · cases hcustom
      · exact ih h
      · exact ih h

lemma finish_reason (sha256Hex : Bytes → String) {res : PhraseFilesResult}
    (h : res.conditionReason ∉ packagingReasons) :
    (res.finish sha256Hex).conditionReason ∉ packagingReasons := by
  simp only [PhraseFilesResult.finish]
  split
  · show "PhraseFilesTooLarge" ∉ packagingReasons
    decide
  · exact h

lemma resolveBasenames_reason (sha256Hex : Bytes → String) (crs : CrsData) (ns : Namespace)
    (waf : WafFiles) (directives bases : List (List Char)) :
    (resolveBasenames sha256Hex crs ns waf directives bases).conditionReason ∉ packagingReasons := by
  rw [resolveBasenames]
  split
  · next h => exact gather_reason h
  · unfold PhraseFilesResult.settleMissing
    split
    · exact finish_reason sha256Hex (by simp [packagingReasons])
    · split
      · exact finish_reason sha256Hex (by simp [packagingReasons])
      · show "DataFileNotFound" ∉ packagingReasons
        decide

section
variable (sha256Hex : Bytes → String) (crs : CrsData) (cluster : String → Namespace)
  (waf : WafFiles) (directives : List (List Char)) (resolved : List ResolvedObject)

/-- `DiscoverAndResolvePhraseFiles`, on the objects that the references resolve to. -/
def discoverResolved : PhraseFilesResult :=
  discoverAndResolvePhraseFiles sha256Hex crs cluster (some waf) directives
    ((resolvedRuleSets resolved).map (·.lists))

lemma discoverResolved_refuses :
    ((discoverResolved sha256Hex crs cluster waf directives resolved).Refuses
        "PhraseListRefNotReady"
      ↔ NamesUnready cluster (·.phraseLists) (·.phraseListRefs) (fun _ => waf.ns) resolved)
    ∧ ((discoverResolved sha256Hex crs cluster waf directives resolved).Refuses "IPListRefNotReady"
      ↔ ¬ NamesUnready cluster (·.phraseLists) (·.phraseListRefs) (fun _ => waf.ns) resolved
        ∧ NamesUnready cluster (·.ipLists) (·.ipListRefs) (fun _ => waf.ns) resolved) := by
  rw [← checkListRefs_ne_none cluster waf.ns "phraseListRefs" "PhraseList",
    ← checkListRefs_ne_none cluster waf.ns "ipListRefs" "IPList"]
  simp only [discoverResolved, discoverAndResolvePhraseFiles, discoverFor, checkRefs]
  cases checkListRefs "phraseListRefs" "PhraseList" (cluster waf.ns).phraseLists
      (collectRuleSetLocalRefs (·.phraseListRefs) ((resolvedRuleSets resolved).map (·.lists))) with
  | some e => simp [PhraseFilesResult.Refuses, PhraseFilesResult.refuse]
  | none =>
    cases checkListRefs "ipListRefs" "IPList" (cluster waf.ns).ipLists
        (collectRuleSetLocalRefs (·.ipListRefs) ((resolvedRuleSets resolved).map (·.lists))) with
    | some e => simp [PhraseFilesResult.Refuses, PhraseFilesResult.refuse]
    | none =>
      simp only [Option.map_none, ne_eq, not_true_eq_false, not_false_eq_true, and_false, iff_false]
      split
      · simp [PhraseFilesResult.Refuses]
      · have hreason := resolveBasenames_reason sha256Hex crs (cluster waf.ns) waf directives
          (scanPmFromFileBasenames directives)
        rw [packagingReasons, mem_pair, not_or] at hreason
        exact ⟨fun h => hreason.1 h.2, fun h => hreason.2 h.2⟩

/-- The refusals are about the namespaces of the RuleSets exactly if, for either kind of list,
the lookups in the namespace of the WAF come to the same; an unready PhraseList is reported first. -/
theorem packagedLists_checked_iff :
    (((discoverResolved sha256Hex crs cluster waf directives resolved).Refuses
        "PhraseListRefNotReady"
      ↔ NamesUnready cluster (·.phraseLists) (·.phraseListRefs) (·.ns) resolved)
    ∧ ((discoverResolved sha256Hex crs cluster waf directives resolved).Refuses "IPListRefNotReady"
      ↔ NamesUnready cluster (·.ipLists) (·.ipListRefs) (·.ns) resolved))
    ↔ (NamesUnready cluster (·.phraseLists) (·.phraseListRefs) (fun _ => waf.ns) resolved
        ↔ NamesUnready cluster (·.phraseLists) (·.phraseListRefs) (·.ns) resolved)
      ∧ (¬ NamesUnready cluster (·.phraseLists) (·.phraseListRefs) (fun _ => waf.ns) resolved
          ∧ NamesUnready cluster (·.ipLists) (·.ipListRefs) (fun _ => waf.ns) resolved
        ↔ NamesUnready cluster (·.ipLists) (·.ipListRefs) (·.ns) resolved) := by
  obtain ⟨hphrase, hip⟩ := discoverResolved_refuses sha256Hex crs cluster waf directives resolved
  rw [hphrase, hip]

end

/-- A RuleSet of `lib` with a PhraseList of its own, for a WAF of `shop`. -/
def packagedBots : List ResolvedObject :=
  [{ kind := "RuleSet", ns := "lib", lists := { phraseListRefs := ["bots"] } }]

/-- The list stands in `lib` only. -/
def botsInLib (ns : String) : Namespace :=
  if ns = "lib" then
    { name := ns, phraseLists := [{ name := "bots", fileName := "bots.data".toList, ready := true }] }
  else { name := ns }

/-- The WAF is refused although the list is Ready where its RuleSet lives. -/
theorem packagedBots_refused :
    (discoverResolved (fun _ => "") ⟨fun _ => false, fun _ => .error "file does not exist"⟩ botsInLib
        ⟨"shop", "FailClosed"⟩ [] packagedBots).Refuses "PhraseListRefNotReady"
      ∧ ¬ NamesUnready botsInLib (·.phraseLists) (·.phraseListRefs) (·.ns) packagedBots := by
  constructor
  · rw [(discoverResolved_refuses _ _ _ _ _ _).1]
    exact ⟨_, mem_cons_self, "bots", mem_cons_self, by decide, rfl⟩
  · intro h
    obtain ⟨rs, hrs, name, hname, -, hunready⟩ := h
    obtain rfl := mem_singleton.mp hrs
    obtain rfl := mem_singleton.mp hname
    exact absurd hunready (by decide)

end KubeWaf.DataFiles
