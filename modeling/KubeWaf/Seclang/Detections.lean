import KubeWaf.Seclang.CollapseTheorems

/-!
# Detection parts in a collapsed text

The replacements do not know where an operator ends. Those that stay between two quotes change a
detection part exactly when they match in it. The quoted fields reach over quotes: a field that
opens in an action list and is not closed there takes its closing quote from the next rule.
-/

namespace KubeWaf.Seclang

open Lib List

/-- None of the steps between two quotes matches in the detection part. -/
def Detection.Plain (d : Detection) : Prop :=
  ∀ m ∈ stepsBefore ++ stepsBehind severities, leftmost m d.text = none

/-- No quoted field opens in the detection part. -/
def Detection.OpensNoField (d : Detection) : Prop :=
  ∀ key ∈ ["initcol:'", "skipAfter:'", "severity:'"], Go.contains d.text key.toList = false

/-- The detection parts that are left alone, whatever the action lists are. -/
def LeftAlone : List Detection → Prop
  | [] => True
  | d :: ds => (∀ e ∈ d :: ds, e.Plain) ∧ d.OpensNoField ∧ ∀ e ∈ ds, '\'' ∉ e.text

lemma leftmost_eq_none_iff {m : Matcher Char (List Char)} (hm : Shortens m) (s : List Char) :
    leftmost m s = none ↔ NoMatch m s [] := by
  constructor
  · intro h u v hs _
    rw [append_nil]
    by_contra hv
    obtain ⟨r, hr⟩ := exists_leftmost u (Option.isSome_iff_ne_none.mpr hv)
    rw [← hs, h] at hr
    cases hr
  · intro h
    apply leftmost_eq_none
    intro u v hs
    cases v with
    | nil =>
      cases hnil : m [] with
      | none => rfl
      | some r =>
        obtain ⟨w, hw, hne, _⟩ := hm.ne_nil hnil
        exact absurd (append_eq_nil_iff.mp hw.symm).1 hne
    | cons c v =>
      have := h u (c :: v) hs (cons_ne_nil _ _)
      rwa [append_nil] at this

lemma mem_stepsBehind_iff (run : MapOrder) (m : Matcher Char (List Char)) :
    m ∈ stepsBehind run.order ↔ m ∈ stepsBehind severities := by
  unfold stepsBehind
  rw [mem_flatMap, mem_flatMap]
  simp [run.perm.mem_iff]

lemma Detection.plain_iff (run : MapOrder) (d : Detection) :
    d.Plain ↔ ∀ m ∈ stepsBefore ++ stepsBehind run.order, NoMatch m d.text [] := by
  have hmem : ∀ m, m ∈ stepsBefore ++ stepsBehind run.order ↔
      m ∈ stepsBefore ++ stepsBehind severities := by
    intro m
    rw [mem_append, mem_append, mem_stepsBehind_iff]
  unfold Detection.Plain
  simp only [hmem]
  refine forall₂_congr fun m hm => leftmost_eq_none_iff ?_ d.text
  obtain hm | hm := mem_append.mp hm
  · exact (inner_of_mem_before hm).tightening.shortens
  · exact (inner_of_mem_behind hm).tightening.shortens

lemma Detection.opensNoField_iff (d : Detection) :
    d.OpensNoField ↔ ∀ fld ∈ freeFields, ¬ fld.key ++ ['\''] <:+: d.text := by
  simp only [Detection.OpensNoField, freeFields, forall_mem_cons, not_mem_nil,
    false_imp_iff, implies_true, and_true, ← Go.contains_iff_infix, Bool.not_eq_true]
  rfl

/-! ## Detection parts that are left alone -/

lemma forall_mem_ruleShapes {rules : List (Detection × List Char)} {P : List Char → Prop} :
    (∀ f ∈ ruleShapes rules, P f.1) ↔ ∀ d ∈ rules.map Prod.fst, P d.text := by
  unfold ruleShapes
  simp only [forall_mem_map]

lemma quote_notMem_tail (n : ℕ) : '\'' ∉ List.replicate n '\n' := fun hmem =>
  absurd (eq_of_mem_replicate hmem) (by decide)

lemma keepsDetections_of_leftAlone {run : MapOrder} {rules : List (Detection × List Char)}
    {below : ℕ} (h : LeftAlone (rules.map Prod.fst)) : KeepsDetections run rules below := by
  rw [keepsDetections_iff_applySteps]
  cases rules with
  | nil =>
    have htext : applySteps (collapseSteps run) (toSeclang [] below) = List.replicate below '\n' :=
      applySteps_replicate (fun _ hm => hm) below
    exact framed_nil_iff.mpr htext
  | cons r rules =>
    obtain ⟨hplain, hopens, hquotes⟩ := h
    rw [Detection.opensNoField_iff] at hopens
    apply framed_applySteps (framed_toSeclang _ below)
    intro m hm s hs
    have hinner : Inner m → m ∈ stepsBefore ++ stepsBehind run.order →
        Framed '"' (ruleShapes (r :: rules)) (List.replicate below '\n') (replaceAll m s) := by
      intro hinner hmem
      have hnone : ∀ f ∈ ruleShapes (r :: rules), NoMatch m f.1 [] :=
        (forall_mem_ruleShapes (P := fun t => NoMatch m t [])).mpr fun d hd =>
          (d.plain_iff run).mp (hplain d hd) m hmem
      exact (framed_replaceAll_iff hinner.tightening hinner.within
        (noMatch_replicate hinner.lineFeed below []) hs).mpr hnone
    rw [collapseSteps_eq, mem_append, mem_append, mem_map] at hm
    obtain hm | ⟨fld, hfld, rfl⟩ | hm := hm
    · exact hinner (inner_of_mem_before hm) (mem_append_left _ hm)
    · have hrest : ∀ f ∈ ruleShapes rules, '\'' ∉ f.1 :=
        (forall_mem_ruleShapes (P := fun t => '\'' ∉ t)).mpr hquotes
      exact framed_quotedField (by decide) fld.key_free fld.rewrites hs (hopens fld hfld) hrest
        (quote_notMem_tail below)
    · exact hinner (inner_of_mem_behind hm) (mem_append_right _ hm)

/-! ## Detection parts that are changed -/

section
variable {run : MapOrder} {rules : List (Detection × List Char)} {below : ℕ}
  {steps : List (Matcher Char (List Char))}

lemma framed_of_keepsDetections (h : KeepsDetections run rules below)
    {steps' : List (Matcher Char (List Char))} (hsteps : collapseSteps run = steps ++ steps') :
    Framed '"' (ruleShapes rules) (List.replicate below '\n')
      (applySteps steps (toSeclang rules below)) := by
  rw [keepsDetections_iff_applySteps, hsteps] at h
  refine framed_of_applySteps ?_ (framed_toSeclang rules below) h
  intro m hm
  rw [← hsteps] at hm
  exact tightening_of_mem hm

lemma plain_of_keepsDetections (h : KeepsDetections run rules below) :
    ∀ d ∈ rules.map Prod.fst, d.Plain := by
  intro d hd
  rw [d.plain_iff run]
  intro m hm
  have hinner : Inner m := by
    obtain hm | hm := mem_append.mp hm
    · exact inner_of_mem_before hm
    · exact inner_of_mem_behind hm
  have hmem : m ∈ collapseSteps run := by
    rw [collapseSteps_eq, mem_append, mem_append]
    rw [mem_append] at hm
    exact hm.imp_right .inr
  obtain ⟨before, behind, hsteps⟩ := append_of_mem hmem
  have hbefore := framed_of_keepsDetections h hsteps
  rw [append_cons] at hsteps
  have hbehind := framed_of_keepsDetections h hsteps
  rw [applySteps_append] at hbehind
  have hnone := noMatch_of_framed hinner hbefore hbehind
  exact (forall_mem_ruleShapes (P := fun t => NoMatch m t [])).mp hnone d hd

lemma applySteps_eq_self {s : List Char} (h : ∀ m ∈ steps, NoMatch m s []) :
    applySteps steps s = s := by
  induction steps with
  | nil => rfl
  | cons m steps ih =>
    rw [forall_mem_cons] at h
    rw [applySteps_cons, replaceAll_eq_self h.1, ih h.2]

lemma applySteps_framed (h : ∀ m ∈ steps, Inner m) (segs : List (List Char × List Char))
    (tail : List Char) :
    applySteps steps (framed '"' segs tail)
      = framed '"' (segs.map (Prod.map (applySteps steps) (applySteps steps)))
          (applySteps steps tail) := by
  induction steps generalizing segs tail with
  | nil =>
    have hid : segs.map (Prod.map (applySteps []) (applySteps [])) = segs := map_id segs
    rw [hid]
    rfl
  | cons m steps ih =>
    rw [forall_mem_cons] at h
    rw [applySteps_cons, replaceAll_framed h.1.tightening.shortens h.1.within, ih h.2, map_map]
    rfl

lemma applySteps_toSeclang (below : ℕ) (h : ∀ d ∈ rules.map Prod.fst, d.Plain) :
    applySteps stepsBefore (toSeclang rules below)
      = framed '"' (rules.map fun r => (r.1.text, applySteps stepsBefore (printedActions r.2)))
          (List.replicate below '\n') := by
  rw [toSeclang, applySteps_framed (fun _ => inner_of_mem_before), map_map,
    applySteps_eq_self (fun m hm => noMatch_replicate (inner_of_mem_before hm).lineFeed below [])]
  congr 1
  apply map_congr_left
  intro r hr
  have hr' : r.1 ∈ rules.map Prod.fst := mem_map_of_mem hr
  have hself : applySteps stepsBefore r.1.text = r.1.text := by
    apply applySteps_eq_self
    intro m hm
    exact (leftmost_eq_none_iff (inner_of_mem_before hm).tightening.shortens _).mp
      (h r.1 hr' m (mem_append_left _ hm))
  rw [Function.comp_apply, Prod.map, hself]

lemma opensNone_of_prefixes {fields : List FreeField} {f x R : List Char} (hx : '\'' ∈ x)
    (hopen : ∀ fld ∈ fields, ¬ fld.key ++ ['\''] <:+: x)
    (h : ∀ done, done <+: fields → ∃ R', applySteps (done.map FreeField.matcher)
      (f ++ '"' :: (x ++ '"' :: R)) = f ++ '"' :: R') :
    ∀ fld ∈ fields, ¬ fld.key ++ ['\''] <:+: f := by
  induction fields generalizing R with
  | nil => exact fun fld hfld => absurd hfld not_mem_nil
  | cons fld fields ih =>
    rw [forall_mem_cons] at hopen
    have hfirst : ¬ fld.key ++ ['\''] <:+: f := by
      intro hf
      obtain ⟨R', hR'⟩ := h [fld] ⟨fields, rfl⟩
      exact replaceAll_ne_of_opens (by decide) fld.key_free fld.rewrites (fun _ => rfl) hf
        (mem_append_left _ hx) hR'
    have hstep : replaceAll fld.matcher (f ++ '"' :: (x ++ '"' :: R))
        = f ++ '"' :: (x ++ '"' :: replaceAll fld.matcher R) := by
      rw [FreeField.matcher, replaceAll_quotedField_append_cons fld.opener_free hfirst,
        replaceAll_quotedField_append_cons fld.opener_free hopen.1]
    rw [forall_mem_cons]
    refine ⟨hfirst, ih (R := replaceAll fld.matcher R) hopen.2 ?_⟩
    intro done hdone
    obtain ⟨R', hR'⟩ := h (fld :: done) (cons_prefix_cons.mpr ⟨rfl, hdone⟩)
    rw [map_cons, applySteps_cons, hstep] at hR'
    exact ⟨R', hR'⟩

/-- An action list with a quote, in which no field opens. -/
def quotedMessage : List Char := "msg:'x'".toList

/-- An action list in which `initcol` opens and is not closed. -/
def openMessage : List Char := "msg:'initcol:'".toList

def idAction : List Char := "id:1".toList

lemma opensNoField_of_keepsDetections {d : Detection} {ds : List Detection}
    (h : KeepsDetections run ((d, quotedMessage) :: ds.map fun e => (e, idAction)) below) :
    d.OpensNoField := by
  rw [Detection.opensNoField_iff]
  have hplain := plain_of_keepsDetections h
  have hprinted : applySteps stepsBefore (printedActions quotedMessage) = " \"msg:'x'".toList := by
    decide
  obtain ⟨R, htext⟩ : ∃ R, applySteps stepsBefore
      (toSeclang ((d, quotedMessage) :: ds.map fun e => (e, idAction)) below)
        = d.text ++ '"' :: (" \"msg:'x'".toList ++ '"' :: R) :=
    ⟨_, by rw [applySteps_toSeclang below hplain, map_cons, framed_cons, hprinted]⟩
  refine opensNone_of_prefixes (x := " \"msg:'x'".toList) (R := R) (by decide) (by decide) ?_
  intro done ⟨rest, hrest⟩
  have hsteps : collapseSteps run = (stepsBefore ++ done.map FreeField.matcher)
      ++ (rest.map FreeField.matcher ++ stepsBehind run.order) := by
    rw [collapseSteps_eq, ← hrest, map_append, append_assoc, append_assoc]
  have hframed := framed_of_keepsDetections h hsteps
  rw [applySteps_append, htext] at hframed
  obtain ⟨x', t', _, _, heq⟩ := framed_cons_iff.mp hframed
  exact ⟨_, heq⟩

lemma quote_notMem_of_keepsDetections {before behind : List Detection} {d e : Detection}
    (hopen : ∀ c ∈ before ++ [d], ¬ initcolField.key ++ ['\''] <:+: c.text)
    (h : KeepsDetections run (before.map (fun c => (c, idAction)) ++ (d, openMessage)
      :: (e, idAction) :: behind.map fun c => (c, idAction)) below) : '\'' ∉ e.text := by
  intro hquote
  have hplain := plain_of_keepsDetections h
  have hid : applySteps stepsBefore (printedActions idAction) = " \"id:1".toList := by decide
  have hmessage : applySteps stepsBefore (printedActions openMessage)
      = " \"msg:'".toList ++ (initcolField.key ++ ['\'']) := by decide
  -- the text that `initcol` sees, cut ahead of the field that opens
  let segs := before.map fun c => (c.text, applySteps stepsBefore (printedActions idAction))
  let P := framed '"' segs (d.text ++ '"' :: " \"msg:'".toList)
  obtain ⟨R, htext⟩ : ∃ R, applySteps stepsBefore (toSeclang (before.map (fun c => (c, idAction))
      ++ (d, openMessage) :: (e, idAction) :: behind.map fun c => (c, idAction)) below)
        = P ++ (initcolField.key ++ '\'' :: '"' :: (e.text ++ '"' :: R)) := by
    refine ⟨applySteps stepsBefore (printedActions idAction) ++ '"' :: framed '"'
      ((behind.map fun c => (c, idAction)).map fun r =>
        (r.1.text, applySteps stepsBefore (printedActions r.2))) (List.replicate below '\n'), ?_⟩
    rw [applySteps_toSeclang below hplain, map_append, map_map, framed_append,
      map_cons, map_cons, framed_cons, framed_cons, hmessage, ← framed_append_tail]
    simp only [append_assoc, cons_append, nil_append]
    rfl
  have hsteps : collapseSteps run = (stepsBefore ++ [initcolField.matcher])
      ++ ([skipAfterField, severityField].map FreeField.matcher ++ stepsBehind run.order) := rfl
  have hframed := framed_of_keepsDetections h hsteps
  rw [applySteps_append, htext] at hframed
  -- in the text ahead of it no field opens
  have hnone : ¬ initcolField.key ++ ['\''] <:+: P ++ initcolField.key := by
    intro hfound
    rw [← framed_append_tail] at hfound
    obtain ⟨seg, hseg, hfound⟩ | hfound := infix_framed initcolField.opener_free hfound
    · obtain ⟨c, hc, rfl⟩ := mem_map.mp hseg
      obtain hfound | hfound := hfound
      · exact hopen c (mem_append_left _ hc) hfound
      · have hfill : initcolField.key ++ ['\''] <:+: applySteps stepsBefore (printedActions idAction) :=
          hfound
        rw [hid] at hfill
        exact absurd hfill (by decide)
    · rw [append_assoc, cons_append] at hfound
      obtain hfound | hfound := infix_append_cons initcolField.opener_free hfound
      · exact hopen d (mem_append_right _ mem_cons_self) hfound
      · exact absurd hfound (by decide)
  -- the frames say how many quotes stand ahead of the changed part
  have hshapes : ruleShapes (before.map (fun c => (c, idAction)) ++ (d, openMessage)
      :: (e, idAction) :: behind.map fun c => (c, idAction))
        = (before.map fun c => (c.text, (printedActions idAction).count '"'))
          ++ (d.text, (printedActions openMessage).count '"')
          :: (e.text, (printedActions idAction).count '"')
          :: behind.map fun c => (c.text, (printedActions idAction).count '"') := by
    unfold ruleShapes
    rw [map_append, map_map, map_cons, map_cons, map_map]
    rfl
  rw [hshapes] at hframed
  obtain ⟨segs', t₁, hsegs', ht₁, heq⟩ := hframed.exists_of_append
  obtain ⟨x, t₂, hx, ht₂, rfl⟩ := framed_cons_iff.mp ht₁
  obtain ⟨y, t₃, _, _, rfl⟩ := framed_cons_iff.mp ht₂
  have hcount : (framed '"' segs' (d.text ++ '"' :: x)).count '"'
      = (P ++ initcolField.key).count '"' := by
    have hfill : (applySteps stepsBefore (printedActions idAction)).count '"'
        = (printedActions idAction).count '"' := by decide
    have hmap : segs.map (shape '"')
        = before.map fun c => (c.text, (printedActions idAction).count '"') := by
      rw [map_map, ← hfill]
      rfl
    have hquotes : (printedActions openMessage).count '"'
        = (" \"msg:'".toList ++ initcolField.key).count '"' := by decide
    rw [← framed_append_tail, count_framed, count_framed, hsegs', hmap, append_assoc, cons_append,
      count_append, count_append, count_cons_self, count_cons_self, hx, hquotes]
  have hcut : d.text ++ '"' :: (x ++ '"' :: (e.text ++ '"' :: (y ++ '"' :: t₃)))
      = (d.text ++ '"' :: x) ++ '"' :: (e.text ++ '"' :: (y ++ '"' :: t₃)) := by
    rw [append_assoc, cons_append]
  rw [hcut, framed_append_tail] at heq
  exact replaceAll_ne_of_crosses (by decide) initcolField.rewrites (fun _ => rfl) hnone hquote
    hcount heq

end

/-- A rule that looks for `severity:ERROR` in a parameter. -/
def severityRule : Detection := ⟨0, 0, "ARGS".toList, "@contains severity:ERROR".toList⟩

end KubeWaf.Seclang
