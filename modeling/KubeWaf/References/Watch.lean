import KubeWaf.References.Locking

/-!
# From a changed object back to the WAFs

`internal/dataplane/index/waf_watch.go`. A change of a RuleSet is mapped to WAFs over a field
index of the references by name; a change of a rule is mapped over the back references in its
status first. Both follow at most one RuleSet in between.
-/

namespace KubeWaf.References

open Lib Seclang List

/-! ## Field indexes -/

/-- The index key of one reference; references by labels have none. -/
def ruleRefIndexKey (ownerNS : String) (ref : RuleRef) : Option String :=
  if ref.name = "" then none
  else
    let ns := if ref.ns = "" then ownerNS else ref.ns
    let kind := if ref.kind = "" then "RuleSet" else ref.kind
    some (kind ++ "/" ++ ns ++ "/" ++ ref.name)

def ruleRefIndexKeys (ownerNS : String) (refs : List RuleRef) : List String :=
  refs.filterMap (ruleRefIndexKey ownerNS)

/-- The key under which a RuleSet is looked up. -/
def ruleSetKey (ns name : String) : String := "RuleSet/" ++ ns ++ "/" ++ name

section
variable (c : Cluster)

/-- `List` of WAFs with `MatchingFields` on `WAFRuleRefField`. -/
def wafsIndexedBy (key : String) : List WAF :=
  c.wafs.filter fun w => (ruleRefIndexKeys w.ns w.ruleSetRefs).contains key

/-- The stored RuleSets, as a typed list reads them. -/
def storedRuleSets : List RuleSet :=
  c.objects.filterMap fun o => if o.gvk = ruleSetGVK then o.asRuleSet else none

/-- `List` of RuleSets with `MatchingFields` on `RuleSetRuleRefField`. -/
def ruleSetsIndexedBy (key : String) : List RuleSet :=
  (storedRuleSets c).filter fun rs => (ruleRefIndexKeys rs.ns rs.spec.ruleRefs).contains key

/-! ## Mapping to requests -/

/-- `collectWAFsForRuleSet`: namespace and name of the WAFs. -/
def collectWAFsForRuleSet (ns name : String) : List (String × String) :=
  if name = "" then []
  else (wafsIndexedBy c (ruleSetKey (if ns = "" then "default" else ns) name)).map
    fun w => (w.ns, w.name)

/-- The WAFs of a RuleSet and those of the RuleSets that refer to it. -/
def wafsWithinOneHop (ns name : String) : List (String × String) :=
  collectWAFsForRuleSet c ns name ++
    (ruleSetsIndexedBy c (ruleSetKey ns name)).flatMap fun p => collectWAFsForRuleSet c p.ns p.name

/-- The WAFs of one back reference. -/
def wafsOfBackRef (ref : RuleSetRef) : List (String × String) :=
  if ref.kind = "WAF" then [(ref.ns, ref.name)]
  else if ref.kind = "RuleSet" ∨ ref.kind = "" then wafsWithinOneHop c ref.ns ref.name
  else []

/-- `MapSecLangToWAFs`: the requests, as a set without order. -/
def mapSecLangToWAFs (o : Object) : List (String × String) :=
  (o.ruleSetRefs.flatMap (wafsOfBackRef c)).dedup

def mapRuleSetToWAFs (rs : RuleSet) : List (String × String) :=
  (wafsWithinOneHop c rs.ns rs.name).dedup

end

/-! ## What the mapping covers -/

/-- The WAF refers to the RuleSet by name. -/
def NamesRuleSet (w : WAF) (ns name : String) : Prop :=
  name ≠ "" ∧
    ruleSetKey (if ns = "" then "default" else ns) name ∈ ruleRefIndexKeys w.ns w.ruleSetRefs

/-- The WAF refers to the RuleSet by name, or to a stored RuleSet that refers to it by name. -/
def WithinOneHop (c : Cluster) (w : WAF) (ns name : String) : Prop :=
  NamesRuleSet w ns name ∨ ∃ p ∈ storedRuleSets c,
    ruleSetKey ns name ∈ ruleRefIndexKeys p.ns p.spec.ruleRefs ∧ NamesRuleSet w p.ns p.name

/-- A back reference leads to the WAF: it names the WAF itself, or a RuleSet within one hop. -/
def BackRefCovers (c : Cluster) (w : WAF) (ref : RuleSetRef) : Prop :=
  (ref.kind = "WAF" ∧ ref.ns = w.ns ∧ ref.name = w.name) ∨
  ((ref.kind = "RuleSet" ∨ ref.kind = "") ∧ WithinOneHop c w ref.ns ref.name)

section
variable {c c' : Cluster} {w : WAF}

lemma mem_collectWAFsForRuleSet_iff (hw : w ∈ c.wafs) {ns name : String} :
    (w.ns, w.name) ∈ collectWAFsForRuleSet c ns name ↔ NamesRuleSet w ns name := by
  unfold collectWAFsForRuleSet NamesRuleSet
  by_cases hname : name = ""
  · simp [hname]
  · rw [if_neg hname, mem_map]
    simp only [wafsIndexedBy, mem_filter, contains_iff_mem]
    constructor
    · rintro ⟨w', ⟨hw', hkey⟩, hid⟩
      -- namespace and name identify a stored WAF
      have hww' : w' = w := inj_on_of_nodup_map c.wafs_nodup hw' hw hid
      exact ⟨hname, hww' ▸ hkey⟩
    · rintro ⟨-, hkey⟩
      exact ⟨w, ⟨hw, hkey⟩, rfl⟩

lemma mem_wafsWithinOneHop_iff (hw : w ∈ c.wafs) {ns name : String} :
    (w.ns, w.name) ∈ wafsWithinOneHop c ns name ↔ WithinOneHop c w ns name := by
  unfold wafsWithinOneHop WithinOneHop
  rw [mem_append, mem_collectWAFsForRuleSet_iff hw, mem_flatMap]
  simp [ruleSetsIndexedBy, mem_collectWAFsForRuleSet_iff hw, and_assoc]

lemma mem_mapRuleSetToWAFs_iff (hw : w ∈ c.wafs) {rs : RuleSet} :
    (w.ns, w.name) ∈ mapRuleSetToWAFs c rs ↔ WithinOneHop c w rs.ns rs.name := by
  rw [mapRuleSetToWAFs, mem_dedup, mem_wafsWithinOneHop_iff hw]

lemma mem_wafsOfBackRef_iff (hw : w ∈ c.wafs) {ref : RuleSetRef} :
    (w.ns, w.name) ∈ wafsOfBackRef c ref ↔ BackRefCovers c w ref := by
  unfold wafsOfBackRef BackRefCovers
  split_ifs with hwaf hset
  · rw [mem_singleton, Prod.mk.injEq]
    simp [hwaf, eq_comm (a := w.ns), eq_comm (a := w.name)]
  · simp [hwaf, hset, mem_wafsWithinOneHop_iff hw]
  · simp [hwaf, hset]

lemma mem_mapSecLangToWAFs_iff (hw : w ∈ c.wafs) {o : Object} :
    (w.ns, w.name) ∈ mapSecLangToWAFs c o ↔ ∃ ref ∈ o.ruleSetRefs, BackRefCovers c w ref := by
  rw [mapSecLangToWAFs, mem_dedup, mem_flatMap]
  simp [mem_wafsOfBackRef_iff hw]

/-! ## After a locking run -/

lemma storedRuleSets_sameRules (hc : SameRules c c') : storedRuleSets c = storedRuleSets c' := by
  have hdrop : ∀ d : Cluster, storedRuleSets d = (d.objects.map Object.dropFinalizers).filterMap
      fun o => if o.gvk = ruleSetGVK then o.asRuleSet else none := by
    intro d
    rw [filterMap_map]
    rfl
  rw [hdrop, hdrop, hc.objects]

lemma withinOneHop_sameRules (hc : SameRules c c') {ns name : String} :
    WithinOneHop c w ns name ↔ WithinOneHop c' w ns name := by
  unfold WithinOneHop
  rw [storedRuleSets_sameRules hc]

end

/-- A RuleSet of the shop that refers to one object by name. -/
def setNaming (name kind target : String) : Object where
  group := "waf.kubewaf.io"
  version := "v1beta1"
  ns := "shop"
  name := name
  labels := [("set", name)]
  content := .ruleSet { ruleRefs := [{ kind := kind, name := target }] }

/-- A rule of the shop with the back references that are stored on it. -/
def ruleWithBackRefs (refs : List RuleSetRef) : Object where
  group := "seclang.kubewaf.io"
  version := "v1beta1"
  ns := "shop"
  name := "deny"
  content := .secRule {} { ruleSetRefs := refs }

/-- A WAF that names one RuleSet and selects others by a label. -/
def labelledWAF : WAF where
  ns := "shop"
  name := "front"
  ruleSetRefs := [{ kind := "RuleSet", name := "base" },
    { kind := "RuleSet", selector := some { matchLabels := [("set", "extra")] } }]

/-- The back reference of the rule is already stored. -/
def watchedCluster : Cluster where
  objects := [ruleWithBackRefs [{ kind := "RuleSet", ns := "shop", name := "base" }],
    setNaming "base" "SecRule" "deny"]
  wafs := [labelledWAF]

/-- The rule is in the third RuleSet below the WAF; another RuleSet is attached by its label. -/
def nestedCluster : Cluster where
  objects := [ruleWithBackRefs [], setNaming "base" "RuleSet" "middle",
    setNaming "deep" "SecRule" "deny", setNaming "extra" "SecRule" "deny",
    setNaming "middle" "RuleSet" "deep"]
  wafs := [labelledWAF]

end KubeWaf.References
