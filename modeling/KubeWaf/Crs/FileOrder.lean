import KubeWaf.Crs.Modes
import KubeWaf.References.Assembly
import Mathlib

/-!
# The order of a CRS file

One-per-rule mode writes the id of a rule as its sort key, and assembly sorts by it. The file's
own order, on which the jumps of `skipAfter` depend, comes back only if the ids ascend.
-/

namespace KubeWaf.Crs

open Lib Seclang References List

variable {g : Generated}

/-- What a directive is, for the order of directives. -/
inductive Event where
  | rule (id : Int)
  | marker (name : String)
deriving DecidableEq

section
variable {α : Type}

/-- The event of a marker that is set. -/
def markerEvents (marker : String) : List Event :=
  if marker = "" then [] else [.marker marker]

/-- The rules and markers of a file, in order. -/
def fileEvents (file : List (DirectiveGroup α)) : List Event :=
  file.flatMap fun g =>
    (g.rules.map fun r => .rule r.head.metadata.id) ++ markerEvents g.markerName

def directiveEvent : SeclangDirective α → Event
  | .rule r => .rule r.head.metadata.id
  | .secMarker name => .marker name

/-- The rules and markers that were assembled, in order. -/
def resultEvents (results : List (RenderResult α)) : List Event :=
  results.flatMap fun res => res.directives.map directiveEvent

/-- A generated rule as it is stored. -/
def Generated.object (g : Generated) : Object where
  group := "seclang.kubewaf.io"
  version := "v1beta1"
  ns := g.secRule.ns
  name := g.secRule.name
  labels := g.labels
  content := .secRule g.secRule.spec g.secRule.status

/-! ## Sort keys and names -/

/-- The sort key of a rule with a positive id. -/
def sortKeyOfID (id : Int) : Int := if int32 id ≠ 0 then int32 id else id

/-- The names that one-per-rule mode gives to rules with these ids. -/
def ruleNames (namePrefix fileCRName : String) :
    ℕ → List (String × ℕ) → List Int → List String
  | _, _, [] => []
  | index, usedNames, id :: ids =>
    let (name, usedNames) := nextName usedNames (ruleCRName namePrefix fileCRName id index)
    name :: ruleNames namePrefix fileCRName (index + 1) usedNames ids

/-- The sort keys strictly ascend; rules of one key are ordered by their names. -/
def Ascending (namePrefix fileCRName : String) (ids : List Int) : Prop :=
  (List.zipWith (fun id name => (toLex (sortKeyOfID id, name) : Int ×ₗ String)) ids
    (ruleNames namePrefix fileCRName 0 [] ids)).Pairwise (· < ·)

/-- The ids of the rules of a file. -/
def fileIDs (file : List (DirectiveGroup α)) : List Int :=
  (fileRules file).map fun r => r.head.metadata.id

/-! ## What the converter writes -/

/-- The `SecRule` that one-per-rule mode writes for an entry. -/
structure WrittenFrom (lib : Crslang α) (e : RuleEntry α) (g : Generated) : Prop where
  status : g.secRule.status = {}
  spec : convertCrsRuleToSingleForm lib e.rule e.marker = .ok g.secRule.spec

section
variable {lib : Crslang α} {labels : List (String × String)} {ns namePrefix fileCRName : String}
  {e : RuleEntry α} {text : List (SeclangDirective α) → String} {listing : List Object}
  {items : List LangItem}

lemma generateRules_writtenFrom {index : ℕ} {usedNames : List (String × ℕ)}
    {entries : List (RuleEntry α)} {gs : List Generated}
    (h : generateRules lib labels ns namePrefix fileCRName index usedNames entries = .ok gs) :
    List.Forall₂ (WrittenFrom lib) entries gs ∧
      gs.map (·.secRule.name) = ruleNames namePrefix fileCRName index usedNames
        (entries.map fun e => e.rule.head.metadata.id) := by
  induction entries generalizing index usedNames gs with
  | nil =>
    cases h
    exact ⟨.nil, rfl⟩
  | cons e entries ih =>
    rw [generateRules] at h
    cases hspec : convertCrsRuleToSingleForm lib e.rule e.marker with
    | error err =>
      rw [hspec] at h
      cases h
    | ok spec =>
      have hid : specID spec = e.rule.head.metadata.id := by
        rw [specID, metadata_of_convertCrsRuleToSingleForm hspec, Option.map_some,
          Option.getD_some, crsMetadata_id]
      simp only [hspec, orderFromID_of_convert hspec, hid] at h
      obtain ⟨rest, hrest, h⟩ := bind_eq_ok.mp h
      rw [← pure_eq_ok.mp h]
      obtain ⟨hall, hnames⟩ := ih hrest
      refine ⟨.cons ⟨rfl, hspec⟩ hall, ?_⟩
      rw [map_cons, map_cons, ruleNames, hnames]

/-! ## Events of a rule -/

/-- The events of an entry of the file. -/
def entryEvents (e : RuleEntry α) : List Event :=
  .rule e.rule.head.metadata.id :: markerEvents e.marker

/-- The events of an item to assemble. -/
def itemEvents : LangItem → List Event
  | .secRule sr => .rule (specID sr.spec) :: markerEvents sr.spec.markerAfter
  | .secAction _ => []

lemma groupEntries_events (marker : String) {rs : List (RuleWithCondition α)} (h : rs ≠ []) :
    (groupEntries marker rs).flatMap entryEvents =
      (rs.map fun r => .rule r.head.metadata.id) ++ markerEvents marker := by
  induction rs with
  | nil => exact absurd rfl h
  | cons r rs ih =>
    cases rs with
    | nil => simp [groupEntries, entryEvents]
    | cons r' rs =>
      change entryEvents ⟨r, ""⟩ ++ (groupEntries marker (r' :: rs)).flatMap entryEvents = _
      rw [ih (cons_ne_nil _ _)]
      rfl

lemma fileEvents_eq {file : List (DirectiveGroup α)} (h : ∀ g ∈ file, g.rules ≠ []) :
    fileEvents file = (fileEntries file).flatMap entryEvents := by
  unfold fileEvents fileEntries
  rw [flatMap_assoc]
  exact flatMap_congr fun g hg => (groupEntries_events g.markerName (h g hg)).symm

lemma WrittenFrom.metadata (h : WrittenFrom lib e g) :
    g.secRule.spec.metadata = some (crsMetadata e.rule.head) :=
  metadata_of_convertCrsRuleToSingleForm h.spec

lemma WrittenFrom.id (h : WrittenFrom lib e g) :
    specID g.secRule.spec = e.rule.head.metadata.id := by
  rw [specID, h.metadata, Option.map_some, Option.getD_some, crsMetadata_id]

lemma WrittenFrom.markerAfter (h : WrittenFrom lib e g) :
    g.secRule.spec.markerAfter = e.marker := by
  obtain ⟨_, _, _, _, hspec⟩ := convertCrsRuleToSingleForm_eq_ok h.spec
  rw [hspec, orderFromID_markerAfter]

lemma WrittenFrom.events (h : WrittenFrom lib e g) :
    itemEvents (.secRule g.secRule) = entryEvents e := by
  rw [itemEvents, entryEvents, h.id, h.markerAfter]

lemma WrittenFrom.sortKey (h : WrittenFrom lib e g) (hid : 0 < e.rule.head.metadata.id) :
    secRuleSortKey g.secRule = sortKeyOfID e.rule.head.metadata.id := by
  have horder : g.secRule.spec.order = int32 e.rule.head.metadata.id := by
    obtain ⟨_, _, _, _, hspec⟩ := convertCrsRuleToSingleForm_eq_ok h.spec
    rw [hspec]
    simp [orderFromID, hid]
  have hruleID : ¬ 0 < g.secRule.status.ruleID := by
    rw [h.status]
    decide
  unfold secRuleSortKey sortKeyOfID
  rw [horder, h.metadata]
  by_cases hzero : int32 e.rule.head.metadata.id = 0
  · rw [if_neg (not_not.mpr hzero), if_neg (not_not.mpr hzero), if_neg hruleID]
    simp [if_pos hid]
  · rw [if_pos hzero, if_pos hzero]

lemma WrittenFrom.renderItem_events {res : RenderResult α} (h : WrittenFrom lib e g)
    (hres : renderItem lib text (.secRule g.secRule) = .ok res) :
    res.directives.map directiveEvent = itemEvents (.secRule g.secRule) := by
  have hrender : renderSecRule lib text g.secRule g.secRule.status.assignedIDs = .ok res := by
    rw [renderItem] at hres
    split at hres
    · cases hres
    · next heq => rw [heq, hres]
  have hconvert := renderSecRule_eq_ok hrender
  rw [applyAssignedIDs_unassigned (by rw [h.status]),
    convertSecRule_of_metadata (by rw [h.metadata]; rfl)] at hconvert
  obtain ⟨r, hdirectives, hbuilt⟩ := convertSingleRuleForm_builtFrom hconvert
  have hid : r.head.metadata.id = specID g.secRule.spec := by
    rw [hbuilt.metadata_head, specID, h.metadata, Option.map_some, Option.getD_some,
      Option.getD_some]
  rw [hdirectives, itemEvents, map_cons, directiveEvent, hid, markerDirectives, markerEvents]
  split_ifs <;> rfl

/-! ## Order -/

/-- The items of the rules that were written. -/
def itemsOf (gs : List Generated) : List LangItem := gs.map fun g => .secRule g.secRule

lemma langItems_objects (gs : List Generated) :
    (gs.map Generated.object).filterMap Object.langItem? = itemsOf gs := by
  rw [filterMap_map, itemsOf, ← filterMap_eq_map]
  rfl

section
variable {entries : List (RuleEntry α)} {gs : List Generated}
  (hgs : List.Forall₂ (WrittenFrom lib) entries gs)
include hgs

lemma exists_writtenFrom {item : LangItem} (h : item ∈ itemsOf gs) :
    ∃ e g, WrittenFrom lib e g ∧ item = .secRule g.secRule := by
  obtain ⟨g, hg, rfl⟩ := mem_map.mp h
  obtain ⟨e, -, he⟩ := exists_of_forall₂ hgs hg
  exact ⟨e, g, he, rfl⟩

lemma itemsOf_events : (itemsOf gs).flatMap itemEvents = entries.flatMap entryEvents := by
  induction hgs with
  | nil => rfl
  | cons he _ ih =>
    rw [itemsOf, map_cons, flatMap_cons, flatMap_cons, he.events, ← ih]
    rfl

lemma writtenIDs : (gs.map fun g => specID g.secRule.spec) =
    entries.map fun e => e.rule.head.metadata.id := by
  induction hgs with
  | nil => rfl
  | cons he _ ih => rw [map_cons, map_cons, he.id, ih]

lemma assemble_events (hlisting : listing.Perm (gs.map Generated.object))
    {res : List (RenderResult α)} (hres : assemble lib text listing = .ok res) :
    resultEvents res = (sortItems (listing.filterMap Object.langItem?)).flatMap itemEvents := by
  have hmem : ∀ item ∈ sortItems (listing.filterMap Object.langItem?), item ∈ itemsOf gs := by
    intro item hitem
    rw [← langItems_objects]
    exact (hlisting.filterMap _).mem_iff.mp ((sortItems_perm _).mem_iff.mp hitem)
  have hall := mapM_eq_ok.mp hres
  clear hres
  generalize sortItems (listing.filterMap Object.langItem?) = items at hall hmem
  unfold resultEvents
  induction hall with
  | nil => rfl
  | cons hitem _ ih =>
    obtain ⟨e, g, hwritten, rfl⟩ := exists_writtenFrom hgs (hmem _ mem_cons_self)
    rw [flatMap_cons, flatMap_cons, hwritten.renderItem_events hitem,
      ih fun item h => hmem item (mem_cons_of_mem _ h)]

end

lemma exists_assemble {gs : List Generated} (hlisting : listing.Perm (gs.map Generated.object))
    (h : ∃ res, assemble lib text (gs.map Generated.object) = .ok res) :
    ∃ res, assemble lib text listing = .ok res := by
  unfold assemble at h ⊢
  rw [exists_mapM_eq_ok_iff] at h ⊢
  intro item hitem
  refine h item ?_
  rw [(sortItems_perm _).mem_iff] at hitem ⊢
  exact (hlisting.filterMap _).mem_iff.mp hitem

/-- The id of the rule of an item. -/
def itemID : LangItem → Int
  | .secRule sr => specID sr.spec
  | .secAction _ => 0

def Event.id? : Event → Option Int
  | .rule id => some id
  | .marker _ => none

lemma filterMap_itemEvents {gs : List Generated} (h : ∀ item ∈ items, item ∈ itemsOf gs) :
    (items.flatMap itemEvents).filterMap Event.id? = items.map itemID := by
  induction items with
  | nil => rfl
  | cons item items ih =>
    obtain ⟨g, -, rfl⟩ := mem_map.mp (h item mem_cons_self)
    have hmarker : (markerEvents g.secRule.spec.markerAfter).filterMap Event.id? = [] := by
      unfold markerEvents
      split_ifs <;> rfl
    have hrule : (itemEvents (.secRule g.secRule)).filterMap Event.id? =
        [itemID (.secRule g.secRule)] := by
      rw [itemEvents, filterMap_cons, hmarker]
      rfl
    rw [flatMap_cons, filterMap_append, hrule,
      ih fun item hitem => h item (mem_cons_of_mem _ hitem)]
    rfl

lemma items_eq_of_events_eq {gs : List Generated}
    (hids : (gs.map fun g => specID g.secRule.spec).Nodup) (hperm : items.Perm (itemsOf gs))
    (h : items.flatMap itemEvents = (itemsOf gs).flatMap itemEvents) : items = itemsOf gs := by
  have hmap : items.map itemID = (itemsOf gs).map itemID := by
    rw [← filterMap_itemEvents fun item => hperm.mem_iff.mp, h,
      filterMap_itemEvents fun item => id]
  have hnodup : ((itemsOf gs).map itemID).Nodup := by
    rw [itemsOf, map_map]
    exact hids
  refine ext_getElem hperm.length_eq fun i hi hi' => ?_
  refine inj_on_of_nodup_map hnodup (hperm.mem_iff.mp (getElem_mem hi))
    (getElem_mem hi') ?_
  rw [← getElem_map itemID (h := by rwa [length_map]),
    ← getElem_map itemID (h := by rwa [length_map])]
  simp [hmap]

lemma pairwise_rank_iff {entries : List (RuleEntry α)} {gs : List Generated}
    (hgs : List.Forall₂ (WrittenFrom lib) entries gs)
    (hids : ∀ e ∈ entries, 0 < e.rule.head.metadata.id)
    (hnames : gs.map (·.secRule.name) = ruleNames namePrefix fileCRName 0 []
      (entries.map fun e => e.rule.head.metadata.id)) :
    ((itemsOf gs).Pairwise fun a b => a.rank < b.rank) ↔
      Ascending namePrefix fileCRName (entries.map fun e => e.rule.head.metadata.id) := by
  have hkeys : ∀ g ∈ gs, secRuleSortKey g.secRule = sortKeyOfID (specID g.secRule.spec) := by
    intro g hg
    obtain ⟨e, he, hwritten⟩ := exists_of_forall₂ hgs hg
    rw [hwritten.sortKey (hids e he), hwritten.id]
  rw [Ascending, ← hnames, ← writtenIDs hgs, zipWith_map, zipWith_self,
    pairwise_map, itemsOf, pairwise_map]
  refine List.Pairwise.iff_of_mem fun {g g'} hg hg' => ?_
  -- both are SecRules, so the kind decides nothing
  unfold LangItem.rank
  rw [Prod.Lex.toLex_lt_toLex, Prod.Lex.toLex_lt_toLex]
  simp [Prod.Lex.toLex_lt_toLex, LangItem.key, LangItem.name, LangItem.kind, hkeys g hg, hkeys g' hg']

end

/-- Converting a file in one-per-rule mode and assembling the rules, however they are listed,
gives the rules and markers in the order of the file exactly when the sort keys of the ids
strictly ascend in the file. -/
theorem fileOrder_survives_iff (lib : Crslang α) (text : List (SeclangDirective α) → String)
    (labels : List (String × String)) (ns namePrefix fileCRName : String)
    (file : List (DirectiveGroup α)) (hgroups : ∀ g ∈ file, g.rules ≠ [])
    (hpos : ∀ id ∈ fileIDs file, 0 < id) (hdistinct : (fileIDs file).Nodup) {gs : List Generated}
    (hgs : writeOnePerRuleMode lib labels ns namePrefix fileCRName (fileEntries file) = .ok gs)
    (hassemble : ∃ res, assemble lib text (gs.map Generated.object) = .ok res) :
    (∀ listing : List Object, listing.Perm (gs.map Generated.object) →
      ∃ res, assemble lib text listing = .ok res ∧ resultEvents res = fileEvents file) ↔
    Ascending namePrefix fileCRName (fileIDs file) := by
  obtain ⟨hwritten, hnames⟩ := generateRules_writtenFrom hgs
  have hids : fileIDs file = (fileEntries file).map fun e => e.rule.head.metadata.id := by
    rw [fileIDs, ← fileEntries_rules, map_map]
    rfl
  have hentries : ∀ e ∈ fileEntries file, 0 < e.rule.head.metadata.id := by
    intro e he
    exact hpos _ (hids ▸ mem_map_of_mem he)
  rw [hids, ← pairwise_rank_iff hwritten hentries hnames, fileEvents_eq hgroups,
    ← itemsOf_events hwritten]
  rw [hids, ← writtenIDs hwritten] at hdistinct
  constructor
  · intro horder
    -- listed in reverse, the rules must still come out in the order of the file
    obtain ⟨res, hres, hevents⟩ := horder _ (reverse_perm _)
    rw [assemble_events hwritten (reverse_perm _) hres, filterMap_reverse,
      langItems_objects] at hevents
    have hperm : (sortItems (itemsOf gs).reverse).Perm (itemsOf gs) :=
      (sortItems_perm _).trans (reverse_perm _)
    have hnodup : (itemsOf gs).Nodup := by
      refine List.Nodup.of_map itemID ?_
      rw [itemsOf, map_map]
      exact hdistinct
    exact pairwise_lt_of_insertionSort_reverse LangItem.not_less_iff hnodup
      (items_eq_of_events_eq hdistinct hperm hevents)
  · intro hascending listing hlisting
    obtain ⟨res, hres⟩ := exists_assemble hlisting hassemble
    have hperm := hlisting.filterMap Object.langItem?
    rw [langItems_objects] at hperm
    refine ⟨res, hres, ?_⟩
    rw [assemble_events hwritten hlisting hres, sortItems,
      insertionSort_eq_of_perm LangItem.not_less_iff hascending hperm]

end

/-! ## Ascending and other ids -/

lemma length_ruleNames (namePrefix fileCRName : String) (index : ℕ)
    (usedNames : List (String × ℕ)) (ids : List Int) :
    (ruleNames namePrefix fileCRName index usedNames ids).length = ids.length := by
  induction ids generalizing index usedNames with
  | nil => rfl
  | cons id ids ih => rw [ruleNames, length_cons, length_cons, ih]

lemma sortKeyOfID_eq_self {id : Int} (hpos : 0 < id) (hlt : id < 2 ^ 31) :
    sortKeyOfID id = id := by
  have hid : int32 id = id := Int.bmod_eq_of_le_mul_two (by omega) (by omega)
  rw [sortKeyOfID, hid, ite_self]

lemma ascending_of_pairwise_lt {namePrefix fileCRName : String} {ids : List Int}
    (hids : ids.Pairwise (· < ·)) (hrange : ∀ id ∈ ids, 0 < id ∧ id < 2 ^ 31) :
    Ascending namePrefix fileCRName ids := by
  unfold Ascending
  generalize hnames : ruleNames namePrefix fileCRName 0 [] ids = names
  have hlength : names.length = ids.length := by
    rw [← hnames, length_ruleNames]
  rw [pairwise_iff_getElem] at hids ⊢
  intro i j hi hj hij
  rw [length_zipWith] at hi hj
  rw [getElem_zipWith, getElem_zipWith, Prod.Lex.toLex_lt_toLex]
  have hi' := hrange _ (getElem_mem (n := i) (by omega))
  have hj' := hrange _ (getElem_mem (n := j) (by omega))
  refine .inl ?_
  simp only [sortKeyOfID_eq_self hi'.1 hi'.2, sortKeyOfID_eq_self hj'.1 hj'.2]
  exact hids i j (by omega) (by omega) hij

/-- Rules of one group, each with its id and where it jumps to, and the marker `END`. -/
def skipFile (rules : List (Int × List PlainAction)) : List (DirectiveGroup PlainAction) :=
  [{ directives := rules.map fun r => .rule { head := testLink r.1 .REQUEST_URI r.2 }
     marker := ⟨.secMarker, "END"⟩ }]

/-- The rule that the converter writes for a rule of such a file. -/
def skipRule (id : Int) (flow : List FlowAction) (marker : String) : Generated where
  labels := [(labelID, toString id), (labelOrder, toString id)]
  secRule :=
    { name := "crs-" ++ toString id
      spec :=
        { order := id
          markerAfter := marker
          metadata := some { id }
          matchLinks := [{ vars := [⟨.known .REQUEST_URI, false⟩]
                           operator := { name := .known .rx, value := "x" } }]
          actions := some { flow } } }

/-- A jump to the end that stands before the rules it jumps over. -/
def ascendingFile : List (DirectiveGroup PlainAction) :=
  skipFile [(13, [{ key := "skipAfter", param := some "END" }]), (151, []), (422, [])]

def ascendingRules : List Generated :=
  [skipRule 13 [⟨.known .skipAfter, "END"⟩] "", skipRule 151 [] "",
    skipRule 422 [] "END"]

theorem ascendingFile_order_survives :
    writeOnePerRuleMode plainCrslang [] "" "crs-" "crs" (fileEntries ascendingFile) =
      .ok ascendingRules ∧
    ∀ listing : List Object, listing.Perm (ascendingRules.map Generated.object) →
      ∃ res, assemble plainCrslang plainText listing = .ok res ∧
        resultEvents res = fileEvents ascendingFile := by
  have hgs : writeOnePerRuleMode plainCrslang [] "" "crs-" "crs" (fileEntries ascendingFile) =
      .ok ascendingRules := by decide
  have hassemble : ∃ res, assemble plainCrslang plainText (ascendingRules.map Generated.object) =
      .ok res := by
    have hok : (assemble plainCrslang plainText (ascendingRules.map Generated.object)).isOk =
        true := by decide
    cases h : assemble plainCrslang plainText (ascendingRules.map Generated.object) with
    | error e =>
      rw [h] at hok
      cases hok
    | ok res => exact ⟨res, rfl⟩
  exact ⟨hgs, (fileOrder_survives_iff plainCrslang plainText [] "" "crs-" "crs" ascendingFile
    (by decide) (by decide) (by decide) hgs hassemble).mpr
    (ascending_of_pairwise_lt (by decide) (by decide))⟩

/-- A jump to the end behind a rule with a higher id, as in `REQUEST-921-PROTOCOL-ATTACK`, where
the ids are 921250, 921013 and 921151. -/
def skippingFile : List (DirectiveGroup PlainAction) :=
  skipFile [(250, []), (13, [{ key := "skipAfter", param := some "END" }]), (151, [])]

def skippingRules : List Generated :=
  [skipRule 250 [] "", skipRule 13 [⟨.known .skipAfter, "END"⟩] "",
    skipRule 151 [] "END"]

/-- The jump is moved to the front, and the first rule of the file behind its target. -/
theorem skippingFile_reordered :
    (∀ g ∈ skippingFile, g.rules ≠ []) ∧ (∀ id ∈ fileIDs skippingFile, 0 < id) ∧
    (fileIDs skippingFile).Nodup ∧
    writeOnePerRuleMode plainCrslang [] "" "crs-" "crs" (fileEntries skippingFile) =
      .ok skippingRules ∧
    fileEvents skippingFile =
      [.rule 250, .rule 13, .rule 151, .marker "END"] ∧
    (assemble plainCrslang plainText (skippingRules.map Generated.object)).map resultEvents =
      .ok [.rule 13, .rule 151, .marker "END", .rule 250] := by
  decide

end KubeWaf.Crs
