import KubeWaf.Seclang.Collapse

/-!
# The steps of collapsing a text

Two kinds of steps: those whose matches stay between two double quotes, and the quoted fields, whose
values reach up to the next quote wherever it stands. No step touches a double quote, and each one
only shortens the text between two of them.
-/

namespace KubeWaf.Seclang

open Lib List

variable {m : Matcher Char (List Char)} {run : MapOrder}

/-! ## The steps between two quotes -/

lemma seclangLineCont_eq_some {s v rest : List Char}
    (h : seclangLineCont s = some (v, rest)) : v = [] ∧
      ∃ eol t, (eol = ['\n'] ∨ eol = ['\r', '\n']) ∧ s = '\\' :: (eol ++ t) ∧
        rest = t.dropWhile fun c => c == ' ' || c == '\t' := by
  revert h
  fun_cases seclangLineCont s with
  | case1 t =>
    intro h
    simp only [Option.some.injEq, Prod.mk.injEq] at h
    exact ⟨h.1.symm, ['\n'], t, .inl rfl, rfl, h.2.symm⟩
  | case2 t =>
    intro h
    simp only [Option.some.injEq, Prod.mk.injEq] at h
    exact ⟨h.1.symm, ['\r', '\n'], t, .inr rfl, rfl, h.2.symm⟩
  | case3 => exact fun h => absurd h (by simp)

lemma seclangLineCont_of_eol {eol t : List Char} (h : eol = ['\n'] ∨ eol = ['\r', '\n']) :
    seclangLineCont ('\\' :: (eol ++ t))
      = some ([], t.dropWhile fun c => c == ' ' || c == '\t') := by
  obtain rfl | rfl := h
  · rfl
  · rfl

lemma tightening_seclangLineCont : Tightening '"' seclangLineCont := by
  intro s v rest h
  obtain ⟨rfl, eol, t, heol, rfl, rfl⟩ := seclangLineCont_eq_some h
  have hq : '"' ∉ '\\' :: (eol ++ t.takeWhile fun c => c == ' ' || c == '\t') := by
    have hblank : '"' ∉ t.takeWhile fun c => c == ' ' || c == '\t' := fun hmem =>
      absurd (mem_takeWhile_imp hmem) (by decide)
    obtain rfl | rfl := heol
    · simp [hblank]
    · simp [hblank]
  refine ⟨'\\' :: (eol ++ t.takeWhile fun c => c == ' ' || c == '\t'), ?_, Nat.succ_pos _, ?_⟩
  · rw [cons_append, append_assoc, takeWhile_append_dropWhile]
  · exact squeezes_of_notMem hq not_mem_nil (.inr (Nat.succ_pos _))

lemma within_seclangLineCont : Within '"' seclangLineCont := by
  apply within_of_append
  · intro s v rest t h
    obtain ⟨rfl, eol, t', heol, rfl, rfl⟩ := seclangLineCont_eq_some h
    rw [cons_append, append_assoc, seclangLineCont_of_eol heol,
      dropWhile_append_cons_of_neg (by decide)]
  · intro s t v rest h
    obtain ⟨rfl, eol, t', heol, hs, _⟩ := seclangLineCont_eq_some h
    have hq : '"' ∉ '\\' :: eol := by
      obtain rfl | rfl := heol
      · decide
      · decide
    obtain ⟨s', rfl, _⟩ := exists_of_append_eq_append_cons hq hs.symm
    exact ⟨_, seclangLineCont_of_eol heol⟩

/-- A step that works between two quotes, and that no line break starts a match of. -/
structure Inner (m : Matcher Char (List Char)) : Prop where
  tightening : Tightening '"' m
  within : Within '"' m
  lineFeed : ∀ s, m ('\n' :: s) = none

lemma inner_seclangLineCont : Inner seclangLineCont :=
  ⟨tightening_seclangLineCont, within_seclangLineCont, fun _ => rfl⟩

lemma inner_literalTo {lit new : List Char} (hlit : '"' ∉ lit) (hnew : '"' ∉ new)
    (hlt : new.length < lit.length) (hhead : lit.head? ≠ some '\n') :
    Inner (literalTo lit new) := by
  refine ⟨tightening_literalTo hlit hnew hlt, within_literalTo hlit, fun s => ?_⟩
  cases hm : literalTo lit new ('\n' :: s) with
  | none => rfl
  | some r =>
    obtain ⟨hs, _⟩ := literalTo_eq_some_iff.mp hm
    cases lit with
    | nil => exact absurd hlt (Nat.not_lt_zero _)
    | cons c lit =>
      rw [cons_append, List.cons.injEq] at hs
      rw [← hs.1] at hhead
      exact absurd rfl hhead

lemma inner_statusQuoted : Inner statusQuoted := by
  refine ⟨tightening_quotedField _ (by decide) ?_, within_quotedField (by decide) (by decide) ?_,
    fun _ => rfl⟩
  · intro x y hy
    simp only at hy
    by_cases hx : x ≠ [] ∧ x.all Char.isDigit
    · rw [if_pos hx, Option.some.injEq] at hy
      exact .inl hy.symm
    · rw [if_neg hx] at hy
      cases hy
  · intro x hq
    rw [if_neg]
    intro ⟨_, hdigits⟩
    exact absurd (all_eq_true.mp hdigits _ hq) (by decide)

/-- The steps ahead of the quoted fields. -/
def stepsBefore : List (Matcher Char (List Char)) :=
  [seclangLineCont, literalTo ",    ".toList ",".toList, statusQuoted]

/-- The steps behind the quoted fields. -/
def stepsBehind (order : List Severity) : List (Matcher Char (List Char)) :=
  order.flatMap fun sev => [severityNamed sev, severityLower sev]

lemma inner_of_mem_before (h : m ∈ stepsBefore) : Inner m := by
  simp only [stepsBefore, mem_cons, not_mem_nil, or_false] at h
  obtain rfl | rfl | rfl := h
  · exact inner_seclangLineCont
  · exact inner_literalTo (by decide) (by decide) (by decide) (by decide)
  · exact inner_statusQuoted

lemma inner_of_mem_behind {order : List Severity} (h : m ∈ stepsBehind order) : Inner m := by
  obtain ⟨sev, _, h⟩ := mem_flatMap.mp h
  simp only [mem_cons, not_mem_nil, or_false] at h
  obtain rfl | rfl := h
  · cases sev <;> exact inner_literalTo (by decide) (by decide) (by decide) (by decide)
  · cases sev <;> exact inner_literalTo (by decide) (by decide) (by decide) (by decide)

lemma noMatch_replicate (h : ∀ s, m ('\n' :: s) = none) (n : ℕ) (t : List Char) :
    NoMatch m (List.replicate n '\n') t := by
  intro u v hs hne
  obtain ⟨c, v, rfl⟩ := exists_cons_of_ne_nil hne
  have hc : c ∈ List.replicate n '\n' := hs ▸ mem_append_right _ mem_cons_self
  rw [eq_of_mem_replicate hc]
  exact h _

/-! ## The quoted fields -/

/-- A quoted field whose value may be any text. -/
structure FreeField where
  key : List Char
  value : List Char → List Char
  key_free : '"' ∉ key
  rewrites : Rewrites '"' fun x => some (value x)

def FreeField.matcher (fld : FreeField) : Matcher Char (List Char) :=
  quotedField fld.key '\'' fun x => some (fld.value x)

lemma mem_dropWhile_of_neg {p : Char → Bool} {c : Char} {s : List Char} (hc : c ∈ s)
    (hp : p c = false) : c ∈ s.dropWhile p := by
  rw [← takeWhile_append_dropWhile (p := p) (l := s), mem_append] at hc
  obtain hc | hc := hc
  · rw [mem_takeWhile_imp hc] at hp
    cases hp
  · exact hc

lemma mem_trimFunc_of_neg {p : Char → Bool} {c : Char} {s : List Char} (hc : c ∈ s)
    (hp : p c = false) : c ∈ Go.trimFunc p s := by
  rw [Go.trimFunc, List.rdropWhile, mem_reverse]
  exact mem_dropWhile_of_neg (mem_reverse.mpr (mem_dropWhile_of_neg hc hp)) hp

lemma severityOf_eq_some {x : List Char} {sev : Severity} (h : severityOf x = some sev) :
    '"' ∉ x ∧ x ≠ [] := by
  have hname : sev.name = (Go.trimFunc Go.isSpace x).map Go.toUpper :=
    beq_iff_eq.mp (find?_some (p := fun sev : Severity => sev.name == _) h)
  constructor
  · intro hq
    have hmem : Go.toUpper '"' ∈ sev.name := by
      rw [hname]
      exact mem_map_of_mem (mem_trimFunc_of_neg hq (by decide))
    cases sev <;> exact absurd hmem (by decide)
  · intro hnil
    rw [hnil] at hname
    cases sev <;> cases hname

lemma rewrites_severityText : Rewrites '"' fun x => some (severityText x) := by
  intro x y hy
  rw [Option.some.injEq] at hy
  cases hsev : severityOf x with
  | none =>
    rw [severityText, hsev] at hy
    exact .inl hy.symm
  | some sev =>
    have hlevel : y = [sev.level] := by
      rw [← hy, severityText, hsev]
    obtain ⟨hq, hne⟩ := severityOf_eq_some hsev
    rw [hlevel]
    refine .inr ⟨hq, ?_, length_pos_iff.mpr hne⟩
    cases sev <;> decide

def initcolField : FreeField :=
  ⟨"initcol:".toList, id, by decide, fun _ _ hy => .inl (Option.some.inj hy).symm⟩

def skipAfterField : FreeField :=
  ⟨"skipAfter:".toList, id, by decide, fun _ _ hy => .inl (Option.some.inj hy).symm⟩

def severityField : FreeField :=
  ⟨"severity:".toList, severityText, by decide, rewrites_severityText⟩

def freeFields : List FreeField := [initcolField, skipAfterField, severityField]

lemma collapseSteps_eq (run : MapOrder) : collapseSteps run
    = stepsBefore ++ (freeFields.map FreeField.matcher ++ stepsBehind run.order) := rfl

lemma FreeField.tightening (fld : FreeField) : Tightening '"' fld.matcher :=
  tightening_quotedField _ (by decide) fld.rewrites

lemma FreeField.opener_free (fld : FreeField) : '"' ∉ fld.key ++ ['\''] := by
  rw [mem_append, not_or]
  exact ⟨fld.key_free, by decide⟩

lemma tightening_of_mem (h : m ∈ collapseSteps run) : Tightening '"' m := by
  rw [collapseSteps_eq, mem_append, mem_append, mem_map] at h
  obtain h | ⟨fld, _, rfl⟩ | h := h
  · exact (inner_of_mem_before h).tightening
  · exact fld.tightening
  · exact (inner_of_mem_behind h).tightening

lemma lineFeed_of_mem (h : m ∈ collapseSteps run) (s : List Char) : m ('\n' :: s) = none := by
  rw [collapseSteps_eq, mem_append, mem_append] at h
  obtain h | h | h := h
  · exact (inner_of_mem_before h).lineFeed s
  · simp only [freeFields, map_cons, map_nil, mem_cons, not_mem_nil, or_false] at h
    obtain rfl | rfl | rfl := h <;> rfl
  · exact (inner_of_mem_behind h).lineFeed s

/-! ## Running the steps -/

section
variable {steps : List (Matcher Char (List Char))} {fs : List (List Char × ℕ)}
  {tail s : List Char}

lemma applySteps_cons (m : Matcher Char (List Char)) (steps : List (Matcher Char (List Char)))
    (s : List Char) : applySteps (m :: steps) s = applySteps steps (replaceAll m s) := rfl

lemma applySteps_append (steps steps' : List (Matcher Char (List Char))) (s : List Char) :
    applySteps (steps ++ steps') s = applySteps steps' (applySteps steps s) := foldl_append

lemma tightens_applySteps (h : ∀ m ∈ steps, Tightening '"' m) (s : List Char) :
    Tightens '"' s (applySteps steps s) := by
  induction steps generalizing s with
  | nil => exact Tightens.refl _ s
  | cons m steps ih =>
    rw [forall_mem_cons] at h
    exact (h.1.tightens s).trans (ih h.2 _)

lemma framed_applySteps (hs : Framed '"' fs tail s)
    (h : ∀ m ∈ steps, ∀ s, Framed '"' fs tail s → Framed '"' fs tail (replaceAll m s)) :
    Framed '"' fs tail (applySteps steps s) := by
  induction steps generalizing s with
  | nil => exact hs
  | cons m steps ih =>
    rw [forall_mem_cons] at h
    exact ih (h.1 s hs) h.2

lemma framed_of_applySteps {steps' : List (Matcher Char (List Char))}
    (h : ∀ m ∈ steps ++ steps', Tightening '"' m) (hs : Framed '"' fs tail s)
    (hend : Framed '"' fs tail (applySteps (steps ++ steps') s)) :
    Framed '"' fs tail (applySteps steps s) := by
  rw [applySteps_append] at hend
  rw [forall_mem_append] at h
  exact hs.of_tightens (tightens_applySteps h.1 s) (tightens_applySteps h.2 _) hend

lemma noMatch_of_framed {below : ℕ} (hm : Inner m)
    (hs : Framed '"' fs (List.replicate below '\n') s)
    (hend : Framed '"' fs (List.replicate below '\n') (replaceAll m s)) :
    ∀ f ∈ fs, NoMatch m f.1 [] :=
  (framed_replaceAll_iff hm.tightening hm.within (noMatch_replicate hm.lineFeed below []) hs).mp hend

end

/-! ## The end of the text -/

lemma exists_replaceAll_tail (h : m ∈ collapseSteps run) (s : List Char) (below : ℕ) :
    ∃ s', replaceAll m (s ++ '"' :: List.replicate below '\n')
      = s' ++ '"' :: List.replicate below '\n' := by
  have hinner : Inner m → ∃ s', replaceAll m (s ++ '"' :: List.replicate below '\n')
      = s' ++ '"' :: List.replicate below '\n' := by
    intro hm
    refine ⟨replaceAll m s, ?_⟩
    rw [replaceAll_append_cons hm.tightening.shortens hm.within,
      replaceAll_eq_self (noMatch_replicate hm.lineFeed below [])]
  rw [collapseSteps_eq, mem_append, mem_append, mem_map] at h
  obtain h | ⟨fld, _, rfl⟩ | h := h
  · exact hinner (inner_of_mem_before h)
  · have hcuts : Cuts '\'' '"' (s ++ '"' :: List.replicate below '\n')
        (replaceAll fld.matcher (s ++ '"' :: List.replicate below '\n')) :=
      cuts_quotedField (by decide) fld.rewrites _
    obtain ⟨s', t', heq, _, htail⟩ := hcuts.exists_of_append_cons
    have hfree : '\'' ∉ List.replicate below '\n' := fun hmem =>
      absurd (eq_of_mem_replicate hmem) (by decide)
    rw [← append_nil (List.replicate below '\n')] at htail
    obtain ⟨t'', rfl, hnil⟩ := htail.exists_of_notMem hfree
    cases hnil
    exact ⟨s', by rw [heq, append_nil]⟩
  · exact hinner (inner_of_mem_behind h)

lemma exists_applySteps_tail {steps : List (Matcher Char (List Char))}
    (h : ∀ m ∈ steps, m ∈ collapseSteps run) (s : List Char) (below : ℕ) :
    ∃ s', applySteps steps (s ++ '"' :: List.replicate below '\n')
      = s' ++ '"' :: List.replicate below '\n' := by
  induction steps generalizing s with
  | nil => exact ⟨s, rfl⟩
  | cons m steps ih =>
    rw [forall_mem_cons] at h
    obtain ⟨s', hs'⟩ := exists_replaceAll_tail h.1 s below
    rw [applySteps_cons, hs']
    exact ih h.2 s'

lemma rdropWhile_lineFeeds (s : List Char) (below : ℕ) :
    (s ++ '"' :: List.replicate below '\n').rdropWhile (fun c => c ∈ [' ', '\t', '\r', '\n'])
      = s ++ ['"'] := by
  induction below with
  | zero =>
    rw [replicate_zero]
    exact rdropWhile_concat_neg _ _ _ (by decide)
  | succ n ih =>
    rw [replicate_succ', ← cons_append, ← append_assoc,
      rdropWhile_concat_pos _ _ _ (by decide), ih]

lemma quote_notMem_replicate (n : ℕ) : '"' ∉ List.replicate n '\n' := fun hmem =>
  absurd (eq_of_mem_replicate hmem) (by decide)

lemma framed_toSeclang (rules : List (Detection × List Char)) (below : ℕ) :
    Framed '"' (ruleShapes rules) (List.replicate below '\n') (toSeclang rules below) := by
  refine ⟨rules.map fun r => (r.1.text, printedActions r.2), ?_, rfl⟩
  rw [map_map]
  rfl

lemma applySteps_replicate {steps : List (Matcher Char (List Char))}
    (h : ∀ m ∈ steps, m ∈ collapseSteps run) (below : ℕ) :
    applySteps steps (List.replicate below '\n') = List.replicate below '\n' := by
  induction steps with
  | nil => rfl
  | cons m steps ih =>
    rw [forall_mem_cons] at h
    rw [applySteps_cons, replaceAll_eq_self (noMatch_replicate (lineFeed_of_mem h.1) below []),
      ih h.2]

lemma keepsDetections_iff_applySteps (run : MapOrder) (rules : List (Detection × List Char))
    (below : ℕ) : KeepsDetections run rules below ↔
      Framed '"' (ruleShapes rules) (List.replicate below '\n')
        (applySteps (collapseSteps run) (toSeclang rules below)) := by
  unfold KeepsDetections collapseSecLangLineContinuations
  by_cases hnil : rules = []
  · have htext : toSeclang rules below = List.replicate below '\n' := by
      rw [hnil]
      rfl
    have hshapes : ruleShapes rules = [] := by
      rw [hnil]
      rfl
    rw [htext, hshapes, applySteps_replicate (fun _ hm => hm), framed_nil_iff]
    refine ⟨fun _ => rfl, fun _ => ?_⟩
    cases below with
    | zero => exact ⟨0, framed_nil_iff.mpr rfl⟩
    | succ n =>
      refine ⟨1, framed_nil_iff.mpr ?_⟩
      have htrim : (List.replicate (n + 1) '\n').rdropWhile (fun c => c ∈ [' ', '\t', '\r', '\n'])
          = [] := by
        rw [rdropWhile_eq_nil_iff]
        intro c hc
        rw [eq_of_mem_replicate hc]
        decide
      rw [if_neg (by simp), htrim]
      rfl
  · have hsegs : rules.map (fun r => (r.1.text, printedActions r.2)) ≠ [] :=
      fun h => hnil (map_eq_nil_iff.mp h)
    have hshapes : ruleShapes rules ≠ [] := fun h => hnil (map_eq_nil_iff.mp h)
    obtain ⟨s, hs⟩ := exists_framed_eq '"' hsegs
    obtain ⟨s', hs'⟩ : ∃ s', applySteps (collapseSteps run) (s ++ '"' :: List.replicate below '\n')
        = s' ++ '"' :: List.replicate below '\n' :=
      exists_applySteps_tail (fun _ hm => hm) s below
    rw [toSeclang, hs, hs', rdropWhile_lineFeeds, if_neg (by simp), append_assoc]
    have hq := quote_notMem_replicate
    constructor
    · intro ⟨below', h⟩
      exact Framed.of_tail hshapes (hq below') (hq 1) h _
    · intro h
      exact ⟨1, Framed.of_tail hshapes (hq below) (hq below) h _⟩

end KubeWaf.Seclang
