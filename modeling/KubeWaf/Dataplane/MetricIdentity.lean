import KubeWaf.Dataplane.StatsTags
import KubeWaf.Lib.ExceptLemmas
import KubeWaf.Lib.Fragments

/-!
# Whose metrics a stat is counted for

The name of a stat is a base name with a fragment `_key=value` for each label of the WAF: its
identity labels and the extra ones, in any order. The extractors read the identity back from the
leftmost `_waf_namespace=` and `_waf_name=`. The webhook refuses each label whose own fragment
has such a text in it, but the keys `namespace` and `name` complete it behind a text that ends in
`_waf`: the base name, or the value of another label. The identity is read back for every base
name and every order exactly when these two keys are not there, or have values that do not
forge anything (`extractTags_identity_iff`).
-/

namespace KubeWaf.Dataplane

open Lib Webhook List

/-- The identity labels that the operator puts in `metric_labels`. -/
def identityLabels (ns name : List Char) : List Label :=
  [("waf_namespace".toList, ns), ("waf_name".toList, name),
    ("engine".toList, "modsecurity".toList), ("owner".toList, "modsecurity-proxy-wasm".toList)]

/-- The name of a stat. -/
abbrev statName (base : List Char) (labels : List Label) : List Char :=
  labelled '_' '=' base labels

/-- The part of a value that an identity tag would capture. -/
abbrev captured (v : List Char) : List Char := v.takeWhile tagChar

lemma tagChar_underscore : tagChar '_' = false := by decide

/-! ## Keys -/

/-- A key that ends no reserved fragment, unless it is the reserved key itself. -/
structure TameKey (k : List Char) : Prop where
  noEquals : '=' ∉ k
  reserved : ∀ w, w ++ ['='] ∈ extraLabelSpoofFrags → w <:+ '_' :: k →
    w = '_' :: k ∧ k ∈ reservedMetricLabelKeys

lemma tameKey_of_accepted {l : Label} (h : AcceptedLabel l) : TameKey l.1 where
  noEquals := h.equals_notMem_key
  reserved := by
    intro w hw ⟨x, hx⟩
    refine absurd ⟨x, l.2, ?_⟩ (h.noFragment _ hw)
    rw [← hx]
    simp

lemma tameKey_of_reserved {k : List Char} (h : k ∈ reservedMetricLabelKeys) : TameKey k where
  noEquals := by
    have hall : ∀ k ∈ reservedMetricLabelKeys, '=' ∉ k := by decide
    exact hall k h
  reserved := by
    have hall : ∀ k ∈ reservedMetricLabelKeys, ∀ f ∈ extraLabelSpoofFrags,
        f.dropLast <:+ '_' :: k → f.dropLast = '_' :: k := by decide
    intro w hw hsuffix
    have hw' := hall k h _ hw
    rw [dropLast_concat] at hw'
    exact ⟨hw' hsuffix, h⟩

lemma TameKey.cases {k w pre text : List Char} (hk : TameKey k)
    (hw : w ++ ['='] ∈ extraLabelSpoofFrags) (h : pre ++ w = text ++ '_' :: k) :
    (w = '_' :: k ∧ k ∈ reservedMetricLabelKeys)
      ∨ w = "_waf".toList ++ '_' :: k ∧ k ∈ ["namespace".toList, "name".toList] := by
  have hall : ∀ f ∈ extraLabelSpoofFrags, ∀ t ∈ f.dropLast.tails, t.head? = some '_' →
      t = f.dropLast ∨ f.dropLast = "_waf".toList ++ t
        ∧ t.tail ∈ ["namespace".toList, "name".toList] := by decide
  have hsuffix : w <:+ pre ++ w := suffix_append _ _
  have hkey : '_' :: k <:+ pre ++ w := by
    rw [h]
    exact suffix_append _ _
  rcases suffix_or_suffix_of_suffix hsuffix hkey with hsub | hsub
  · exact Or.inl (hk.reserved w hw hsub)
  · -- the key is a part of the fragment
    have hcases := hall _ hw ('_' :: k)
    rw [dropLast_concat] at hcases
    rcases hcases ((mem_tails _ _).mpr hsub) rfl with heq | hwaf
    · refine Or.inl (hk.reserved w hw ?_)
      rw [heq]
    · exact Or.inr hwaf

/-- The labels of a stat: their keys are tame and their values have no `=`. -/
def TameLabels (ls : List Label) : Prop := ∀ l ∈ ls, TameKey l.1 ∧ '=' ∉ l.2

lemma exists_label_of_fragment {base pre w rest : List Char} {ls : List Label}
    (hbase : '=' ∉ base) (hls : TameLabels ls) (hw : w ++ ['='] ∈ extraLabelSpoofFrags)
    (h : statName base ls = pre ++ (w ++ '=' :: rest)) :
    ∃ x ls₁ l ls₂, ls = ls₁ ++ l :: ls₂ ∧ rest = statName l.2 ls₂ ∧ w = x ++ '_' :: l.1
      ∧ pre ++ x = statName base ls₁
      ∧ (x = [] ∧ l.1 ∈ reservedMetricLabelKeys
        ∨ x = "_waf".toList ∧ l.1 ∈ ["namespace".toList, "name".toList]) := by
  have hw' : '=' ∉ w := by
    have hall : ∀ f ∈ extraLabelSpoofFrags, '=' ∉ f.dropLast := by decide
    have hmem := hall _ hw
    rwa [dropLast_concat] at hmem
  obtain ⟨ls₁, l, ls₂, hsplit, hrest, hpre⟩ := exists_label_of_occurrence (by decide) hbase
    (fun l hl => ⟨(hls l hl).1.noEquals, (hls l hl).2⟩) hw' h
  have hl : l ∈ ls := by
    rw [hsplit]
    exact mem_append_right _ mem_cons_self
  have hback : ∀ x, w = x ++ '_' :: l.1 → pre ++ x = statName base ls₁ := by
    intro x hx
    rw [hx, ← append_assoc] at hpre
    exact append_cancel_right hpre
  rcases (hls l hl).1.cases hw hpre with ⟨hkey, hmem⟩ | ⟨hkey, hmem⟩
  · exact ⟨[], ls₁, l, ls₂, hsplit, hrest, hkey, hback [] hkey, Or.inl ⟨rfl, hmem⟩⟩
  · exact ⟨_, ls₁, l, ls₂, hsplit, hrest, hkey, hback _ hkey, Or.inr ⟨rfl, hmem⟩⟩

lemma leftmost_foreign_eq_none {base : List Char} {ls : List Label} (hbase : '=' ∉ base)
    (hls : TameLabels ls) {f : List Char}
    (hf : f ∈ ["_tag=".toList, "_phase=".toList, "_ruleid=".toList, "_severity=".toList])
    (m : Matcher Char (List Char)) : leftmost (literal f m) (statName base ls) = none := by
  refine leftmost_eq_none fun pre t ht => ?_
  cases hm : literal f m t with
  | none => rfl
  | some r =>
    obtain ⟨val, after⟩ := r
    obtain ⟨t', rfl, _⟩ := literal_eq_some hm
    have hall : ∀ f ∈ ["_tag=".toList, "_phase=".toList, "_ruleid=".toList, "_severity=".toList],
        f ∈ extraLabelSpoofFrags ∧ f.dropLast ++ ['='] = f
          ∧ (∀ k ∈ reservedMetricLabelKeys, f.dropLast ≠ '_' :: k)
          ∧ ∀ k ∈ ["namespace".toList, "name".toList], f.dropLast ≠ "_waf".toList ++ '_' :: k := by
      decide
    obtain ⟨hmem, hdrop, hreserved, hshort⟩ := hall f hf
    rw [← hdrop] at hmem ht
    rw [append_assoc, singleton_append] at ht
    obtain ⟨x, _, l, _, _, _, hw, _, hx⟩ := exists_label_of_fragment hbase hls hmem ht
    rcases hx with ⟨rfl, hl⟩ | ⟨rfl, hl⟩
    · exact absurd hw (hreserved _ hl)
    · exact absurd hw (hshort _ hl)

/-! ## One identity label

`short` is `namespace` or `name`, and `own` the text that the tag `waf_short` should have. -/

/-- The expression of the tag `waf_short`. -/
def ownMatcher (short : List Char) : Matcher Char (List Char) :=
  literal ("_waf_".toList ++ short ++ ['=']) (run tagChar)

/-- The labels of a stat give `own` for the tag `waf_short`, wherever it is read. -/
structure Owned (short own : List Char) (ls : List Label) : Prop where
  tame : TameLabels ls
  identity : ∀ l ∈ ls, l.1 = "waf_".toList ++ short → captured l.2 = own
  unforged : ∀ l ∈ ls, l.1 = short → captured l.2 = [] ∨ captured l.2 = own
  present : ∃ l ∈ ls, l.1 = "waf_".toList ++ short

section
variable {short own base : List Char} {ls : List Label}

lemma ownFragment_mem (hshort : short ∈ ["namespace".toList, "name".toList]) :
    ("_waf_".toList ++ short) ++ ['='] ∈ extraLabelSpoofFrags := by
  have hall : ∀ s ∈ ["namespace".toList, "name".toList],
      ("_waf_".toList ++ s) ++ ['='] ∈ extraLabelSpoofFrags := by decide
  exact hall short hshort

lemma exists_label_of_leftmost (hshort : short ∈ ["namespace".toList, "name".toList])
    (hbase : '=' ∉ base) (hls : TameLabels ls) {before val after : List Char}
    (h : leftmost (ownMatcher short) (statName base ls) = some (before, val, after)) :
    ∃ ls₁ l ls₂ base' ls', ls = ls₁ ++ l :: ls₂
      ∧ (l.1 = "waf_".toList ++ short ∨ l.1 = short) ∧ val = captured l.2 ∧ val ≠ []
      ∧ before ++ after = statName base' ls' ∧ '=' ∉ base'
      ∧ List.Forall₂ (fun l l' => l.1 = l'.1 ∧ '=' ∉ l'.2 ∧ captured l.2 = captured l'.2)
          (ls₁ ++ ls₂) ls' := by
  obtain ⟨t, ht, hm⟩ := leftmost_eq_some h
  obtain ⟨t', rfl, hrun⟩ := literal_eq_some hm
  obtain ⟨hval, hne, hafter⟩ := run_eq_some hrun
  rw [append_assoc, singleton_append] at ht
  obtain ⟨x, ls₁, l, ls₂, hsplit, hrest, hw, hpre, hx⟩ :=
    exists_label_of_fragment hbase hls (ownFragment_mem hshort) ht
  have hvalue : val = captured l.2 := by
    rw [hval, hrest]
    exact takeWhile_labelled tagChar_underscore
  have hmem : ∀ l' ∈ ls₁ ++ l :: ls₂, '=' ∉ l'.2 := by
    intro l' hl'
    rw [← hsplit] at hl'
    exact (hls l' hl').2
  have hothers : ∀ l' ∈ ls₁ ++ ls₂, '=' ∉ l'.2 := by
    intro l' hl'
    refine hmem l' ?_
    simp only [mem_append, mem_cons] at hl' ⊢
    tauto
  have hx' : '=' ∉ x ∧ ∀ c ∈ x.head?, c = '_' := by
    rcases hx with ⟨rfl, _⟩ | ⟨rfl, _⟩
    · exact ⟨not_mem_nil, fun c hc => absurd hc (Option.not_mem_none c)⟩
    · exact ⟨by decide, fun c hc => (Option.some.inj hc).symm⟩
  obtain ⟨base', ls', hcut, hbase', hlabels⟩ :=
    exists_labelled_of_cut tagChar_underscore hbase hothers (hmem l (by simp)) hx'.1 hx'.2 hpre
  refine ⟨ls₁, l, ls₂, base', ls', hsplit, ?_, hvalue, hne, ?_, hbase', hlabels⟩
  · have hword : "_waf_".toList ++ short = '_' :: ("waf_".toList ++ short) := rfl
    rcases hx with ⟨rfl, _⟩ | ⟨rfl, _⟩
    · rw [nil_append, hword, List.cons.injEq] at hw
      exact Or.inl hw.2.symm
    · have hword' : "_waf_".toList ++ short = "_waf".toList ++ '_' :: short := rfl
      rw [hword', append_cancel_left_eq, List.cons.injEq] at hw
      exact Or.inr hw.2.symm
  · rw [hafter, hrest]
    exact hcut

lemma exists_leftmost_of_owned (base : List Char) (hown : own ≠ []) (h : Owned short own ls) :
    ∃ r, leftmost (ownMatcher short) (statName base ls) = some r := by
  obtain ⟨l, hl, hkey⟩ := h.present
  obtain ⟨ls₁, ls₂, hsplit⟩ := append_of_mem hl
  have hvalue : (statName l.2 ls₂).takeWhile tagChar = own := by
    rw [← h.identity l hl hkey]
    exact takeWhile_labelled tagChar_underscore
  have hmatch : (ownMatcher short (("_waf_".toList ++ short ++ ['=']) ++ statName l.2 ls₂)).isSome := by
    rw [ownMatcher, literal_append, run_of_ne_nil (by rw [hvalue]; exact hown)]
    rfl
  obtain ⟨r, hr⟩ := exists_leftmost (statName base ls₁) hmatch
  refine ⟨r, ?_⟩
  have htext : statName base ls
      = statName base ls₁ ++ (("_waf_".toList ++ short ++ ['=']) ++ statName l.2 ls₂) := by
    rw [hsplit, statName, labelled_append, labelled_cons, hkey]
    simp only [append_assoc, singleton_append]
    rfl
  rw [htext]
  exact hr

lemma leftmost_of_owned (hshort : short ∈ ["namespace".toList, "name".toList])
    (hown : own ≠ []) (hbase : '=' ∉ base) (h : Owned short own ls) :
    ∃ before after ls₁ l ls₂ base' ls',
      leftmost (ownMatcher short) (statName base ls) = some (before, own, after)
      ∧ ls = ls₁ ++ l :: ls₂ ∧ (l.1 = "waf_".toList ++ short ∨ l.1 = short)
      ∧ before ++ after = statName base' ls' ∧ '=' ∉ base'
      ∧ List.Forall₂ (fun l l' => l.1 = l'.1 ∧ '=' ∉ l'.2 ∧ captured l.2 = captured l'.2)
          (ls₁ ++ ls₂) ls' := by
  obtain ⟨⟨before, val, after⟩, hr⟩ := exists_leftmost_of_owned base hown h
  obtain ⟨ls₁, l, ls₂, base', ls', hsplit, hkey, hval, hne, hcut, hbase', hlabels⟩ :=
    exists_label_of_leftmost hshort hbase h.tame hr
  have hl : l ∈ ls := by
    rw [hsplit]
    exact mem_append_right _ mem_cons_self
  have hvalown : val = own := by
    rcases hkey with hkey | hkey
    · rw [hval]
      exact h.identity l hl hkey
    · rcases h.unforged l hl hkey with hnil | heq
      · exact absurd (hval.trans hnil) hne
      · rw [hval]
        exact heq
  rw [hvalown] at hr
  exact ⟨before, after, ls₁, l, ls₂, base', ls', hr, hsplit, hkey, hcut, hbase', hlabels⟩

lemma Owned.of_cut {ls₁ ls₂ ls' : List Label} {l : Label} (h : Owned short own (ls₁ ++ l :: ls₂))
    (hl : l.1 ≠ "waf_".toList ++ short)
    (hlabels : List.Forall₂
      (fun l l' => l.1 = l'.1 ∧ '=' ∉ l'.2 ∧ captured l.2 = captured l'.2) (ls₁ ++ ls₂) ls') :
    Owned short own ls' := by
  have hsub : ∀ l' ∈ ls₁ ++ ls₂, l' ∈ ls₁ ++ l :: ls₂ := by
    intro l' hl'
    simp only [mem_append, mem_cons] at hl' ⊢
    tauto
  -- each label that remains has a label of the same key and capture before the cut
  have hfrom : ∀ l' ∈ ls', ∃ l₀ ∈ ls₁ ++ l :: ls₂,
      l₀.1 = l'.1 ∧ '=' ∉ l'.2 ∧ captured l₀.2 = captured l'.2 := by
    intro l' hl'
    obtain ⟨l₀, hl₀, hrel⟩ := exists_of_forall₂ hlabels hl'
    exact ⟨l₀, hsub l₀ hl₀, hrel⟩
  refine ⟨?_, ?_, ?_, ?_⟩
  · intro l' hl'
    obtain ⟨l₀, hl₀, hkey, hequals, _⟩ := hfrom l' hl'
    rw [← hkey]
    exact ⟨(h.tame l₀ hl₀).1, hequals⟩
  · intro l' hl' hid
    obtain ⟨l₀, hl₀, hkey, _, hcap⟩ := hfrom l' hl'
    rw [← hcap]
    exact h.identity l₀ hl₀ (hkey.trans hid)
  · intro l' hl' hid
    obtain ⟨l₀, hl₀, hkey, _, hcap⟩ := hfrom l' hl'
    rw [← hcap]
    exact h.unforged l₀ hl₀ (hkey.trans hid)
  · obtain ⟨l₀, hl₀, hid⟩ := h.present
    have hne : l₀ ≠ l := fun heq => hl (heq ▸ hid)
    have hl₀' : l₀ ∈ ls₁ ++ ls₂ := by
      simp only [mem_append, mem_cons] at hl₀ ⊢
      tauto
    obtain ⟨l', hl', hkey, _⟩ := exists_of_forall₂ hlabels.flip hl₀'
    exact ⟨l', hl', hkey ▸ hid⟩

end

/-! ## The whole identity -/

/-- The names that Kubernetes accepts: `[a-z0-9]([-a-z0-9]*[a-z0-9])?`. -/
def dns1123Part (s : List Char) : Bool :=
  let lower (c : Char) : Bool := ('a' ≤ c && c ≤ 'z') || ('0' ≤ c && c ≤ '9')
  s.all (fun c => lower c || c == '-') && s.head?.any lower && s.getLast?.any lower

/-- A DNS-1123 label, as the name of a namespace is one. -/
def dns1123Label (s : List Char) : Bool := dns1123Part s && s.length ≤ 63

/-- A DNS-1123 subdomain, as the name of a WAF is one. -/
def dns1123Subdomain (s : List Char) : Bool :=
  (s.splitOn '.').all dns1123Part && s.length ≤ 253

lemma dns1123Part_tagChar {s : List Char} (h : dns1123Part s = true) :
    s ≠ [] ∧ ∀ c ∈ s, tagChar c = true := by
  simp only [dns1123Part, Bool.and_eq_true, all_eq_true] at h
  obtain ⟨⟨hall, hhead⟩, _⟩ := h
  constructor
  · intro hnil
    rw [hnil] at hhead
    exact absurd hhead (by decide)
  · intro c hc
    have hc' := hall c hc
    simp only [Bool.or_eq_true, Bool.and_eq_true, tagChar, isAlnum] at hc' ⊢
    tauto

lemma dns1123Label_tagChar {s : List Char} (h : dns1123Label s = true) :
    s ≠ [] ∧ captured s = s := by
  rw [dns1123Label, Bool.and_eq_true] at h
  obtain ⟨hne, hall⟩ := dns1123Part_tagChar h.1
  exact ⟨hne, takeWhile_eq_self_iff.mpr hall⟩

lemma mem_intercalate {α : Type*} {sep : List α} {xs : List (List α)} {c : α}
    (h : c ∈ sep.intercalate xs) : c ∈ sep ∨ ∃ x ∈ xs, c ∈ x := by
  induction xs with
  | nil => exact absurd h not_mem_nil
  | cons x xs ih =>
    cases xs with
    | nil =>
      rw [intercalate_singleton] at h
      exact Or.inr ⟨x, mem_cons_self, h⟩
    | cons y xs =>
      rw [intercalate_cons_cons, mem_append, mem_append] at h
      rcases h with (h | h) | h
      · exact Or.inr ⟨x, mem_cons_self, h⟩
      · exact Or.inl h
      · rcases ih h with h | ⟨z, hz, h⟩
        · exact Or.inl h
        · exact Or.inr ⟨z, mem_cons_of_mem _ hz, h⟩

lemma dns1123Subdomain_tagChar {s : List Char} (h : dns1123Subdomain s = true) :
    s ≠ [] ∧ captured s = s := by
  rw [dns1123Subdomain, Bool.and_eq_true, all_eq_true] at h
  constructor
  · intro hnil
    subst hnil
    exact (dns1123Part_tagChar (h.1 [] (by decide))).1 rfl
  · refine takeWhile_eq_self_iff.mpr fun c hc => ?_
    have hsplit : ['.'].intercalate (s.splitOn '.') = s := intercalate_splitOn '.'
    rw [← hsplit] at hc
    rcases mem_intercalate hc with hdot | ⟨part, hpart, hc⟩
    · rw [mem_singleton.mp hdot]
      decide
    · exact (dns1123Part_tagChar (h.1 part hpart)).2 c hc

lemma equals_notMem_of_captured {s : List Char} (h : captured s = s) : '=' ∉ s :=
  fun hmem => absurd (takeWhile_eq_self_iff.mp h _ hmem) (by decide)

/-- What the labels of a WAF are like: the names are captured whole, and the webhook has let the
extra labels through. -/
structure WafLabels (ns name : List Char) (extra : List Label) : Prop where
  ns : ns ≠ [] ∧ captured ns = ns
  name : name ≠ [] ∧ captured name = name
  extra : validateExtraLabels extra = []

section
variable {ns name : List Char} {extra order : List Label} {base : List Char}

lemma key_of_mem_identityLabels {l : Label} (h : l ∈ identityLabels ns name) :
    l.1 ∈ reservedMetricLabelKeys := by
  have hkeys : (identityLabels ns name).map Prod.fst = reservedMetricLabelKeys := rfl
  rw [← hkeys]
  exact mem_map_of_mem h

lemma WafLabels.tame (h : WafLabels ns name extra)
    (horder : order.Perm (identityLabels ns name ++ extra)) : TameLabels order := by
  intro l hl
  rcases mem_append.mp (horder.mem_iff.mp hl) with hid | hextra
  · refine ⟨tameKey_of_reserved (key_of_mem_identityLabels hid), ?_⟩
    simp only [identityLabels, mem_cons, not_mem_nil, or_false] at hid
    rcases hid with rfl | rfl | rfl | rfl
    · exact equals_notMem_of_captured h.ns.2
    · exact equals_notMem_of_captured h.name.2
    · decide
    · decide
  · have haccepted := acceptedLabel_of_mem h.extra hextra
    exact ⟨tameKey_of_accepted haccepted, haccepted.equals_notMem_value⟩

lemma WafLabels.captured_identity (h : WafLabels ns name extra) {l : Label}
    (hl : l ∈ identityLabels ns name) :
    (l.1 = "waf_namespace".toList → captured l.2 = ns)
      ∧ (l.1 = "waf_name".toList → captured l.2 = name) := by
  have hother : "waf_name".toList ≠ "waf_namespace".toList
      ∧ ∀ k ∈ ["engine".toList, "owner".toList],
        k ≠ "waf_namespace".toList ∧ k ≠ "waf_name".toList := by decide
  simp only [identityLabels, mem_cons, not_mem_nil, or_false] at hl
  rcases hl with rfl | rfl | rfl | rfl
  · exact ⟨fun _ => h.ns.2, fun hkey => absurd hkey.symm hother.1⟩
  · exact ⟨fun hkey => absurd hkey hother.1, fun _ => h.name.2⟩
  · have hkeys := hother.2 _ mem_cons_self
    exact ⟨fun hkey => absurd hkey hkeys.1, fun hkey => absurd hkey hkeys.2⟩
  · have hkeys := hother.2 _ (mem_cons_of_mem _ mem_cons_self)
    exact ⟨fun hkey => absurd hkey hkeys.1, fun hkey => absurd hkey hkeys.2⟩

lemma WafLabels.owned {short own : List Char} (h : WafLabels ns name extra)
    (horder : order.Perm (identityLabels ns name ++ extra))
    (hshort : short ∈ ["namespace".toList, "name".toList])
    (hid : ("waf_".toList ++ short, own) ∈ identityLabels ns name)
    (hown : ∀ l ∈ identityLabels ns name, l.1 = "waf_".toList ++ short → captured l.2 = own)
    (hforged : ∀ v, (short, v) ∈ extra → captured v = [] ∨ captured v = own) :
    Owned short own order where
  tame := h.tame horder
  identity := by
    intro l hl hkey
    rcases mem_append.mp (horder.mem_iff.mp hl) with hmem | hextra
    · exact hown l hmem hkey
    · -- the webhook refuses the key
      have hall : ∀ s ∈ ["namespace".toList, "name".toList],
          "waf_".toList ++ s ∈ reservedMetricLabelKeys := by decide
      refine absurd ?_ (acceptedLabel_of_mem h.extra hextra).notReserved
      rw [hkey]
      exact hall short hshort
  unforged := by
    intro l hl hkey
    rcases mem_append.mp (horder.mem_iff.mp hl) with hmem | hextra
    · -- no identity label has the short key
      have hall : ∀ s ∈ ["namespace".toList, "name".toList], ∀ k ∈ reservedMetricLabelKeys,
          k ≠ s := by decide
      exact absurd hkey (hall short hshort l.1 (key_of_mem_identityLabels hmem))
    · subst hkey
      exact hforged l.2 hextra
  present := ⟨_, horder.mem_iff.mpr (mem_append_left _ hid), rfl⟩

lemma extractTags_eq_foldl (hbase : '=' ∉ base) (hls : TameLabels order) :
    extractTags (statName base order)
      = (statsTags.drop 4).foldl extractTag ⟨statName base order, statName base order, []⟩ := by
  have hforeign : ∀ t ∈ statsTags.take 4, leftmost t.re (statName base order) = none := by
    intro t ht
    simp only [statsTags, take_succ_cons, take_zero, mem_cons, not_mem_nil, or_false] at ht
    rcases ht with rfl | rfl | rfl | rfl <;>
      exact leftmost_foreign_eq_none hbase hls (by decide) _
  have hsplit : statsTags = statsTags.take 4 ++ statsTags.drop 4 :=
    (take_append_drop 4 statsTags).symm
  have hnone : (statsTags.take 4).foldl extractTag ⟨statName base order, statName base order, []⟩
      = ⟨statName base order, statName base order, []⟩ := foldl_extractTag_of_none _ hforeign
  calc extractTags (statName base order)
      = (statsTags.take 4 ++ statsTags.drop 4).foldl extractTag
          ⟨statName base order, statName base order, []⟩ := by rw [← hsplit]; rfl
    _ = _ := by rw [foldl_append, hnone]

lemma statsTags_drop_four :
    statsTags.drop 4 = ⟨"waf_namespace", ownMatcher "namespace".toList⟩
      :: ⟨"waf_name", ownMatcher "name".toList⟩ :: statsTags.drop 6 := rfl

lemma extractTags_of_owned (hns : ns ≠ []) (hname : name ≠ []) (hbase : '=' ∉ base)
    (hownNs : Owned "namespace".toList ns order) (hownName : Owned "name".toList name order) :
    (extractTags (statName base order)).tag "waf_namespace" = some ns
      ∧ (extractTags (statName base order)).tag "waf_name" = some name := by
  obtain ⟨before, after, ls₁, l, ls₂, base', ls', hfirst, hsplit, hkey, hcut, hbase', hlabels⟩ :=
    leftmost_of_owned (by decide) hns hbase hownNs
  -- the label that is cut out is not the one with the WAF's name
  have hl : l.1 ≠ "waf_".toList ++ "name".toList := by
    rcases hkey with hkey | hkey <;> (rw [hkey]; decide)
  rw [hsplit] at hownName
  obtain ⟨before', after', _, _, _, _, _, hsecond, _⟩ :=
    leftmost_of_owned (by decide) hname hbase' (hownName.of_cut hl hlabels)
  rw [← hcut] at hsecond
  have hstep : extractTag ⟨statName base order, statName base order, []⟩
      ⟨"waf_namespace", ownMatcher "namespace".toList⟩
        = ⟨statName base order, before ++ after, [("waf_namespace", ns)]⟩ :=
    extractTag_of_some hfirst hns
  have hstep' : extractTag ⟨statName base order, before ++ after, [("waf_namespace", ns)]⟩
      ⟨"waf_name", ownMatcher "name".toList⟩
        = ⟨statName base order, before' ++ after', [("waf_namespace", ns), ("waf_name", name)]⟩ :=
    extractTag_of_some hsecond hname
  rw [extractTags_eq_foldl hbase hownNs.tame, statsTags_drop_four, foldl_cons,
    foldl_cons, hstep, hstep']
  exact ⟨tag_foldl_extractTag _ _ rfl, tag_foldl_extractTag _ _ rfl⟩

/-! ## Forged tags -/

lemma extractTags_forged_namespace {v : List Char} {rest : List Label}
    (hls : TameLabels (("namespace".toList, v) :: rest)) (hv : captured v ≠ []) :
    (extractTags (statName "_waf".toList (("namespace".toList, v) :: rest))).tag "waf_namespace"
      = some (captured v) := by
  have hcapture : (statName v rest).takeWhile tagChar = captured v :=
    takeWhile_labelled tagChar_underscore
  have htext : statName "_waf".toList (("namespace".toList, v) :: rest)
      = ("_waf_".toList ++ "namespace".toList ++ ['=']) ++ statName v rest := labelled_cons _
  have hfirst : leftmost (ownMatcher "namespace".toList)
      (statName "_waf".toList (("namespace".toList, v) :: rest))
        = some ([], captured v, (statName v rest).dropWhile tagChar) := by
    refine leftmost_of_match ?_
    rw [htext, ownMatcher, literal_append, run_of_ne_nil (by rw [hcapture]; exact hv), hcapture]
  rw [extractTags_eq_foldl (by decide) hls, statsTags_drop_four, foldl_cons,
    extractTag_of_some hfirst hv]
  exact tag_foldl_extractTag _ _ rfl

lemma captured_after_namespace {s before val after : List Char}
    (h : leftmost (ownMatcher "namespace".toList) ("_waf_name".toList ++ '=' :: s)
      = some (before, val, after)) :
    ∃ s', before ++ after = "_waf_name".toList ++ '=' :: s' ∧ captured s' = captured s := by
  obtain ⟨t, ht, hm⟩ := leftmost_eq_some h
  obtain ⟨t', rfl, hrun⟩ := literal_eq_some hm
  obtain ⟨_, _, hafter⟩ := run_eq_some hrun
  rw [append_assoc, singleton_append, ← append_assoc] at ht
  rcases append_cons_eq_cases (by decide) ht with ⟨hshort, _⟩ | ⟨u, hu, hs⟩
  · -- the fragment is longer than the text ahead of the first `=`
    have hlength := congrArg List.length hshort
    rw [length_append] at hlength
    have hlong : ("_waf_name".toList).length < ("_waf_".toList ++ "namespace".toList).length := by
      decide
    omega
  · obtain ⟨u', hbefore, rfl⟩ := exists_of_append_eq (by decide) hu
    refine ⟨u' ++ after, ?_, ?_⟩
    · rw [hbefore, append_assoc, cons_append]
    · rw [hs, append_assoc, hafter]
      rw [captured, captured, takeWhile_append_of_head (head_dropWhile_false t'),
        takeWhile_append_of_head]
      intro c hc
      cases hc
      exact tagChar_underscore

lemma extractTags_forged_name {v : List Char} {rest : List Label}
    (hls : TameLabels (("name".toList, v) :: rest)) (hv : captured v ≠ []) :
    (extractTags (statName "_waf".toList (("name".toList, v) :: rest))).tag "waf_name"
      = some (captured v) := by
  have hcapture : captured (statName v rest) = captured v := takeWhile_labelled tagChar_underscore
  have htext : statName "_waf".toList (("name".toList, v) :: rest)
      = "_waf_name".toList ++ '=' :: statName v rest := labelled_cons _
  -- wherever the text is at the start, its capture is the tag
  have hsecond : ∀ (full s : List Char) (tags : List (String × List Char)),
      tags.lookup "waf_name" = none → captured s = captured v →
      ((statsTags.drop 5).foldl extractTag
        ⟨full, "_waf_name".toList ++ '=' :: s, tags⟩).tag "waf_name" = some (captured v) := by
    intro full s tags htags hs
    have hmatch : leftmost (ownMatcher "name".toList) ("_waf_name".toList ++ '=' :: s)
        = some ([], captured v, s.dropWhile tagChar) := by
      refine leftmost_of_match ?_
      have hlit : "_waf_name".toList ++ '=' :: s
          = ("_waf_".toList ++ "name".toList ++ ['=']) ++ s := rfl
      have hs' : s.takeWhile tagChar = captured v := hs
      rw [hlit, ownMatcher, literal_append, run_of_ne_nil (by rw [hs']; exact hv), hs']
    have htail : statsTags.drop 5 = ⟨"waf_name", ownMatcher "name".toList⟩ :: statsTags.drop 6 :=
      rfl
    rw [htail, foldl_cons, extractTag_of_some hmatch hv]
    refine tag_foldl_extractTag _ _ ?_
    rw [ExtractedStat.tag, lookup_append, htags]
    rfl
  rw [extractTags_eq_foldl (by decide) hls, htext, statsTags_drop_four, foldl_cons]
  cases hfirst : leftmost (ownMatcher "namespace".toList)
      ("_waf_name".toList ++ '=' :: statName v rest) with
  | none =>
    rw [extractTag_of_none hfirst]
    exact hsecond _ _ _ rfl hcapture
  | some r =>
    obtain ⟨before, val, after⟩ := r
    obtain ⟨t, _, hm⟩ := leftmost_eq_some hfirst
    obtain ⟨_, _, hrun⟩ := literal_eq_some hm
    obtain ⟨s', hs', hcap⟩ := captured_after_namespace hfirst
    rw [extractTag_of_some hfirst (run_eq_some hrun).2.1]
    simp only [hs']
    exact hsecond _ _ _ rfl (hcap.trans hcapture)

end

/-- The identity of a WAF is read back for every base name and every order of its labels if and
only if its extra labels `namespace` and `name`, as far as they are there, capture nothing or the
WAF's own namespace and name. -/
theorem extractTags_identity_iff (ns name : List Char) (extra : List Label)
    (hns : dns1123Label ns = true) (hname : dns1123Subdomain name = true)
    (hextra : validateExtraLabels extra = []) :
    (∀ base, '=' ∉ base → ∀ order, order.Perm (identityLabels ns name ++ extra) →
        (extractTags (statName base order)).tag "waf_namespace" = some ns
          ∧ (extractTags (statName base order)).tag "waf_name" = some name)
      ↔ (∀ v, ("namespace".toList, v) ∈ extra → captured v = [] ∨ captured v = ns)
        ∧ ∀ v, ("name".toList, v) ∈ extra → captured v = [] ∨ captured v = name := by
  have h : WafLabels ns name extra :=
    ⟨dns1123Label_tagChar hns, dns1123Subdomain_tagChar hname, hextra⟩
  -- any extra label can come first
  have hfront : ∀ l ∈ extra,
      (l :: (identityLabels ns name ++ extra).erase l).Perm (identityLabels ns name ++ extra) :=
    fun l hl => (perm_cons_erase (mem_append_right _ hl)).symm
  constructor
  · intro hread
    constructor
    · intro v hv
      by_contra hforged
      rw [not_or] at hforged
      have hperm := hfront _ hv
      have htag := (hread "_waf".toList (by decide) _ hperm).1
      rw [extractTags_forged_namespace (h.tame hperm) hforged.1] at htag
      exact hforged.2 (Option.some.inj htag)
    · intro v hv
      by_contra hforged
      rw [not_or] at hforged
      have hperm := hfront _ hv
      have htag := (hread "_waf".toList (by decide) _ hperm).2
      rw [extractTags_forged_name (h.tame hperm) hforged.1] at htag
      exact hforged.2 (Option.some.inj htag)
  · rintro ⟨hforgedNs, hforgedName⟩ base hbase order horder
    have hownNs : Owned "namespace".toList ns order :=
      h.owned horder (by decide) mem_cons_self
        (fun l hl hkey => (h.captured_identity hl).1 hkey) hforgedNs
    have hownName : Owned "name".toList name order :=
      h.owned horder (by decide) (mem_cons_of_mem _ mem_cons_self)
        (fun l hl hkey => (h.captured_identity hl).2 hkey) hforgedName
    exact extractTags_of_owned h.ns.1 h.name.1 hbase hownNs hownName

/-- A WAF with the extra label `team` is counted under its own name, whatever the stat is. -/
theorem extractTags_identity_team :
    validateExtraLabels [("team".toList, "payments".toList)] = []
      ∧ ∀ base, '=' ∉ base → ∀ order,
        order.Perm (identityLabels "prod".toList "shop".toList
          ++ [("team".toList, "payments".toList)]) →
        (extractTags (statName base order)).tag "waf_namespace" = some "prod".toList
          ∧ (extractTags (statName base order)).tag "waf_name" = some "shop".toList := by
  have hkeys : ∀ k ∈ ["namespace".toList, "name".toList], k ≠ "team".toList := by decide
  refine ⟨by decide, (extractTags_identity_iff _ _ _ (by decide) (by decide) (by decide)).mpr
    ⟨?_, ?_⟩⟩
  · intro v hv
    rw [mem_singleton, Prod.mk.injEq] at hv
    exact absurd hv.1 (hkeys _ mem_cons_self)
  · intro v hv
    rw [mem_singleton, Prod.mk.injEq] at hv
    exact absurd hv.1 (hkeys _ (mem_cons_of_mem _ mem_cons_self))

/-- The labels `tier` and `name` pass the webhook one by one. Next to each other they are read as
the name of another WAF. -/
theorem extractTags_identity_straddled :
    let extra := [("tier".toList, "gold_waf".toList), ("name".toList, "bank".toList)]
    dns1123Label "prod".toList ∧ dns1123Subdomain "shop".toList ∧ validateExtraLabels extra = []
      ∧ (extractTags (statName "tx_total".toList
          (extra ++ identityLabels "prod".toList "shop".toList))).tag "waf_name"
        = some "bank".toList := by
  decide +kernel

end KubeWaf.Dataplane
