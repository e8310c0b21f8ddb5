import KubeWaf.Lib.ExceptLemmas
import KubeWaf.References.Assembly

/-!
# Assembling objects in any listing order

The API server lists objects in an order of its own. `GetSecLang` sorts them by key, name and kind,
so what a listing can still decide is the order of objects of one key, one name and one kind, which
differ in their namespace. An object without an order and an id has the key `MaxInt32`.
-/

namespace KubeWaf.References

open Lib Seclang List

variable {objects : List Object}

/-- The id that is set in a rule's metadata. -/
def positiveID (metadata : Option SecRuleMetadata) : Bool :=
  metadata.any fun m => decide (0 < m.id)

/-- The object has an order or an id. -/
def LangItem.hasKey : LangItem → Bool
  | .secRule sr => sr.spec.order != 0 || decide (0 < sr.status.ruleID)
      || positiveID sr.spec.metadata || (firstBagID sr.spec.secRules).isSome
  | .secAction sa => positiveID sa.spec.metadata

/-- The items of a listing, as `GetSecLang` collects them. -/
def langItems (objects : List Object) : List LangItem := objects.filterMap Object.langItem?

/-- Items with an order or an id come before those without. -/
def KeyedFirst (objects : List Object) : Prop :=
  (sortItems (langItems objects)).Pairwise fun a b => b.hasKey → a.hasKey

section
variable {α : Type} (lib : Crslang α) (text : List (SeclangDirective α) → String)

/-- The text of an item, where it can be rendered. -/
def itemText (item : LangItem) : Option String :=
  (renderItem lib text item).toOption.map (·.secLang)

/-- Both listings give the same strings, or both fail. -/
def SameSecLang (listing objects : List Object) : Prop :=
  (getSecLang lib text listing).toOption = (getSecLang lib text objects).toOption

/-- An item does not render, or items that tie render to the same text. -/
def TiesAgree (items : List LangItem) : Prop :=
  (∃ a ∈ items, itemText lib text a = none) ∨
    ∀ a ∈ items, ∀ b ∈ items, a.rank = b.rank → itemText lib text a = itemText lib text b

/-- Each item with an order or an id sorts before each item without. -/
def KeysBelowSentinel (items : List LangItem) : Prop :=
  ∀ a ∈ items, ∀ b ∈ items, a.hasKey → ¬ b.hasKey → a.rank < b.rank

variable {lib text} {listing : List Object}

lemma itemText_eq_some_iff {item : LangItem} {s : String} :
    itemText lib text item = some s ↔ ∃ res, renderItem lib text item = .ok res ∧ res.secLang = s := by
  unfold itemText
  cases renderItem lib text item with
  | error e => simp [Except.toOption]
  | ok res => simp [Except.toOption]

lemma getSecLang_of_forall (h : ∀ a ∈ langItems objects, itemText lib text a ≠ none) :
    getSecLang lib text objects
      = .ok ((sortItems (langItems objects)).map fun a => (itemText lib text a).getD "") := by
  have hrender : ∀ a ∈ sortItems (langItems objects), ∃ res, renderItem lib text a = .ok res ∧
      res.secLang = (itemText lib text a).getD "" := by
    intro a ha
    obtain ⟨s, hs⟩ := Option.ne_none_iff_exists'.mp
      (h a ((sortItems_perm _).mem_iff.mp ha))
    obtain ⟨res, hres, hsec⟩ := (itemText_eq_some_iff).mp hs
    exact ⟨res, hres, by rw [hs, hsec]; rfl⟩
  obtain ⟨r, hr, hmap⟩ := exists_mapM_eq_ok_of_forall hrender
  have hassemble : assemble lib text objects = .ok r := hr
  rw [getSecLang, hassemble, ← hmap]
  rfl

lemma getSecLang_of_exists (h : ∃ a ∈ langItems objects, itemText lib text a = none) :
    (getSecLang lib text objects).toOption = none := by
  obtain ⟨a, ha, hnone⟩ := h
  cases hassemble : assemble lib text objects with
  | error e =>
    rw [getSecLang, hassemble]
    rfl
  | ok r =>
    obtain ⟨res, hres⟩ := exists_mapM_eq_ok_iff.mp ⟨r, hassemble⟩ a
      ((sortItems_perm _).mem_iff.mpr ha)
    have hsome : itemText lib text a = some res.secLang := (itemText_eq_some_iff).mpr ⟨res, hres, rfl⟩
    rw [hnone] at hsome
    cases hsome

/-! ## Ties -/

lemma sameSecLang_of_tiesAgree (hperm : listing.Perm objects)
    (h : TiesAgree lib text (langItems objects)) : SameSecLang lib text listing objects := by
  have hitems : (langItems listing).Perm (langItems objects) := hperm.filterMap _
  unfold SameSecLang
  by_cases hfail : ∃ a ∈ langItems objects, itemText lib text a = none
  · have hfail' : ∃ a ∈ langItems listing, itemText lib text a = none := by
      obtain ⟨a, ha, hnone⟩ := hfail
      exact ⟨a, hitems.mem_iff.mpr ha, hnone⟩
    rw [getSecLang_of_exists hfail, getSecLang_of_exists hfail']
  · have hall : ∀ a ∈ langItems objects, itemText lib text a ≠ none := fun a ha hnone =>
      hfail ⟨a, ha, hnone⟩
    have hall' : ∀ a ∈ langItems listing, itemText lib text a ≠ none := fun a ha =>
      hall a (hitems.mem_iff.mp ha)
    have hagree := h.resolve_left hfail
    rw [getSecLang_of_forall hall, getSecLang_of_forall hall']
    congr 2
    apply map_insertionSort_eq_of_perm LangItem.not_less_iff hitems
    intro a ha b hb hrank
    rw [hagree a ha b hb hrank]

lemma exists_perm_cons_cons {a b : LangItem} (ha : a ∈ langItems objects)
    (hb : b ∈ langItems objects) (hab : a ≠ b) :
    ∃ oa ob rest, oa.langItem? = some a ∧ ob.langItem? = some b ∧
      (oa :: ob :: rest).Perm objects := by
  obtain ⟨oa, hoa, hitem⟩ := mem_filterMap.mp ha
  obtain ⟨ob, hob, hitem'⟩ := mem_filterMap.mp hb
  have hne : ob ≠ oa := by
    intro heq
    rw [heq, hitem, Option.some.injEq] at hitem'
    exact hab hitem'
  have hob' : ob ∈ objects.erase oa := (mem_erase_of_ne hne).mpr hob
  refine ⟨oa, ob, (objects.erase oa).erase ob, hitem, hitem', ?_⟩
  exact ((perm_cons_erase hob').symm.cons oa).trans (perm_cons_erase hoa).symm

lemma langItems_cons {o : Object} {a : LangItem} (h : o.langItem? = some a)
    (objects : List Object) : langItems (o :: objects) = a :: langItems objects :=
  filterMap_cons_some h

lemma tiesAgree_of_sameSecLang
    (h : ∀ listing, listing.Perm objects → SameSecLang lib text listing objects) :
    TiesAgree lib text (langItems objects) := by
  by_cases hfail : ∃ a ∈ langItems objects, itemText lib text a = none
  · exact .inl hfail
  refine .inr fun a ha b hb hrank => ?_
  by_cases hab : a = b
  · rw [hab]
  -- list the two objects first, in both orders
  obtain ⟨oa, ob, rest, hoa, hob, hperm⟩ := exists_perm_cons_cons ha hb hab
  have hswap : (ob :: oa :: rest).Perm objects := (List.Perm.swap oa ob rest).trans hperm
  have hall : ∀ listing, listing.Perm objects →
      ∀ a ∈ langItems listing, itemText lib text a ≠ none := by
    intro listing hlisting a ha hnone
    exact hfail ⟨a, (hlisting.filterMap _).mem_iff.mp ha, hnone⟩
  have hsame : (getSecLang lib text (oa :: ob :: rest)).toOption
      = (getSecLang lib text (ob :: oa :: rest)).toOption := (h _ hperm).trans (h _ hswap).symm
  rw [getSecLang_of_forall (hall _ hperm), getSecLang_of_forall (hall _ hswap),
    langItems_cons hoa, langItems_cons hob, langItems_cons hob, langItems_cons hoa] at hsame
  obtain ⟨pre, post, hsort, hsort'⟩ :=
    exists_insertionSort_swap LangItem.not_less_iff hrank (langItems rest)
  have htexts := Option.some.inj hsame
  unfold sortItems at htexts
  rw [hsort, hsort', map_append, map_append, append_cancel_left_eq] at htexts
  have htie : (itemText lib text a).getD "" = (itemText lib text b).getD "" :=
    head_eq_of_cons_eq htexts
  have hsome := hall objects (List.Perm.refl _)
  obtain ⟨s, hs⟩ := Option.ne_none_iff_exists'.mp (hsome a ha)
  obtain ⟨t, ht⟩ := Option.ne_none_iff_exists'.mp (hsome b hb)
  rw [hs, ht] at htie ⊢
  exact congrArg some htie

/-! ## The sentinel key -/

lemma keyedFirst_of_keysBelowSentinel (hperm : listing.Perm objects)
    (h : KeysBelowSentinel (langItems objects)) : KeyedFirst listing := by
  have hmem : ∀ a ∈ sortItems (langItems listing), a ∈ langItems objects := fun a ha =>
    (hperm.filterMap _).mem_iff.mp ((sortItems_perm _).mem_iff.mp ha)
  have hsorted := pairwise_insertionSort_rank LangItem.not_less_iff (langItems listing)
  refine List.Pairwise.imp_of_mem (fun {a b} ha hb hab hkey => ?_) hsorted
  by_contra hnokey
  exact absurd (h b (hmem b hb) a (hmem a ha) hkey hnokey) (not_lt.mpr hab)

lemma keysBelowSentinel_of_keyedFirst (h : ∀ listing, listing.Perm objects → KeyedFirst listing) :
    KeysBelowSentinel (langItems objects) := by
  intro a ha b hb hkey hnokey
  by_contra hlt
  have hne : b ≠ a := by
    intro heq
    rw [heq] at hnokey
    exact hnokey hkey
  -- the item without a key is listed first, and stays ahead
  obtain ⟨ob, oa, rest, hob, hoa, hperm⟩ := exists_perm_cons_cons hb ha hne
  have hlisted : [b, a].Sublist (langItems (ob :: oa :: rest)) := by
    rw [langItems_cons hob, langItems_cons hoa]
    exact ((nil_sublist _).cons_cons a).cons_cons b
  have hkept : [b, a].Sublist (sortItems (langItems (ob :: oa :: rest))) :=
    pair_sublist_insertionSort (r := fun a b => LangItem.less b a = false)
      ((LangItem.not_less_iff b a).mpr (not_lt.mp hlt)) hlisted
  have hpair := pairwise_iff_forall_sublist.mp (h _ hperm) hkept
  exact hnokey (hpair hkey)

/-- `GetSecLang` gives the same strings for every listing of the objects, and puts those without an
order and an id last, exactly when objects of one key, name and kind render to one text (or some
object does not render) and each order and id sorts below the sentinel. -/
theorem listing_irrelevant_iff (objects : List Object) :
    (∀ listing, listing.Perm objects → SameSecLang lib text listing objects ∧ KeyedFirst listing) ↔
      TiesAgree lib text (langItems objects) ∧ KeysBelowSentinel (langItems objects) := by
  constructor
  · intro h
    exact ⟨tiesAgree_of_sameSecLang fun listing hperm => (h listing hperm).1,
      keysBelowSentinel_of_keyedFirst fun listing hperm => (h listing hperm).2⟩
  · intro h listing hperm
    exact ⟨sameSecLang_of_tiesAgree hperm h.1, keyedFirst_of_keysBelowSentinel hperm h.2⟩

end

/-- Two rules of one name and one order, in two namespaces. -/
def sharedNameRule : Object :=
  ruleObject "block" { order := 10, metadata := some { id := 1 }, matchLinks := [uriMatch .rx "x"] }

def blogRule : Object :=
  { ruleObject "block"
      { order := 10, metadata := some { id := 2 }, matchLinks := [uriMatch .rx "y"] } with
    ns := "blog" }

/-- The rules come out in the order in which they are listed. -/
theorem sameName_listing_decides :
    [sharedNameRule, blogRule].Pairwise (fun a b => (a.kind, a.ns, a.name) ≠ (b.kind, b.ns, b.name)) ∧
    getSecLang plainCrslang linesText [sharedNameRule, blogRule]
      = .ok ["SecRule REQUEST_URI \"@rx x\" \"id:1\"", "SecRule REQUEST_URI \"@rx y\" \"id:2\""] ∧
    getSecLang plainCrslang linesText [blogRule, sharedNameRule]
      = .ok ["SecRule REQUEST_URI \"@rx y\" \"id:2\"", "SecRule REQUEST_URI \"@rx x\" \"id:1\""] ∧
    ¬ SameSecLang plainCrslang linesText [blogRule, sharedNameRule] [sharedNameRule, blogRule] := by
  have hshop : getSecLang plainCrslang linesText [sharedNameRule, blogRule]
      = .ok ["SecRule REQUEST_URI \"@rx x\" \"id:1\"", "SecRule REQUEST_URI \"@rx y\" \"id:2\""] := by
    decide +kernel
  have hblog : getSecLang plainCrslang linesText [blogRule, sharedNameRule]
      = .ok ["SecRule REQUEST_URI \"@rx y\" \"id:2\"", "SecRule REQUEST_URI \"@rx x\" \"id:1\""] := by
    decide +kernel
  refine ⟨by decide, hshop, hblog, fun hsame => ?_⟩
  unfold SameSecLang at hsame
  rw [hshop, hblog] at hsame
  exact absurd hsame (by decide)

end KubeWaf.References
