import KubeWaf.Seclang.Initcol

/-!
# Whether `initcol` actions stay with their rule

All parameters that the text does not contain go to one place, behind the first `initcol:` of the
text. They are where they belong when that place is in the action list they are missing from, and
when no parameter is taken for present because its token stands somewhere else in the text.
-/

namespace KubeWaf.Seclang

open Lib List

variable {links before behind links' : List PrintedLink} {actions tail : List Char}
  {l : PrintedLink}

lemma initcolKey_ne_nil : initcolKey ≠ [] := by decide

lemma endless_initcolKey : Endless endsAction initcolKey := by
  have hall : initcolKey.all (fun c => !endsAction c) = true := by decide
  intro c hc
  simpa using all_eq_true.mp hall c hc

lemma endless_initcolToken {p : List Char} :
    Endless endsAction (initcolToken p) ↔ Endless endsAction p := by
  unfold Endless initcolToken
  rw [forall_mem_append]
  exact and_iff_right endless_initcolKey

lemma initcolToken_injective : Function.Injective initcolToken := fun _ _ h =>
  append_cancel_left h

/-! ## The loop -/

/-- The parameters that the loop puts into the text, the last one first; `a` and `v` are the text
up to the end of the first `initcol:` action and the rest. -/
def addedBy (a v : List Char) (ps new : List (List Char)) : List (List Char) :=
  ps.foldl (fun new p =>
    if Go.contains (withFields ',' a v (new.map initcolToken)) (initcolToken p) then new
    else p :: new) new

section
variable {raw a v : List Char} {ps ps' new : List (List Char)} {p : List Char}

lemma addedBy_cons (a v p : List Char) (ps new : List (List Char)) :
    addedBy a v (p :: ps) new = addedBy a v ps
      (if Go.contains (withFields ',' a v (new.map initcolToken)) (initcolToken p) then new
       else p :: new) := rfl

lemma addedBy_append (a v : List Char) (ps ps' new : List (List Char)) :
    addedBy a v (ps ++ ps') new = addedBy a v ps' (addedBy a v ps new) := foldl_append

lemma insertMissing_of_present (h : initcolToken p <:+: raw) : insertMissing raw p = raw := by
  rw [insertMissing, if_pos (Go.contains_iff_infix.mpr h)]

lemma foldl_insertMissing_of_present (h : ∀ p ∈ ps, initcolToken p <:+: raw) :
    ps.foldl insertMissing raw = raw := by
  induction ps with
  | nil => rfl
  | cons p ps ih =>
    rw [forall_mem_cons] at h
    rw [foldl_cons, insertMissing_of_present h.1, ih h.2]

lemma foldl_insertMissing_of_none (h : cutBehind initcolKey endsAction raw = none) :
    ps.foldl insertMissing raw = raw := by
  induction ps with
  | nil => rfl
  | cons p ps ih =>
    have hstep : insertMissing raw p = raw := by
      rw [insertMissing, h]
      exact ite_self _
    rw [foldl_cons, hstep, ih]

lemma foldl_insertMissing (h : cutBehind initcolKey endsAction raw = some (a, v)) :
    ps.foldl insertMissing (withFields ',' a v (new.map initcolToken))
      = withFields ',' a v ((addedBy a v ps new).map initcolToken) := by
  induction ps generalizing new with
  | nil => rfl
  | cons p ps ih =>
    have hcut := cutBehind_withFields initcolKey_ne_nil endless_initcolKey (c := ',') rfl h
      (new.map initcolToken)
    rw [foldl_cons, addedBy_cons, insertMissing, hcut]
    by_cases hp : Go.contains (withFields ',' a v (new.map initcolToken)) (initcolToken p)
    · rw [if_pos hp, if_pos hp, ih]
    · rw [if_neg hp, if_neg hp, ← ih, map_cons, withFields_cons]

lemma expandMultiInitcol_of_cut {dirs : List PlainDirective}
    (hlen : 1 < (dirs.flatMap PlainDirective.collect).length)
    (h : cutBehind initcolKey endsAction raw = some (a, v)) :
    expandMultiInitcol raw dirs = withFields ',' a v
      ((addedBy a v (dirs.flatMap PlainDirective.collect) []).map initcolToken) := by
  rw [← foldl_insertMissing h, expandMultiInitcol, if_neg (by omega), (cutBehind_eq_some h).1]
  rfl

lemma mem_addedBy_of_mem (h : p ∈ new) : p ∈ addedBy a v ps new := by
  induction ps generalizing new with
  | nil => exact h
  | cons p' ps ih =>
    rw [addedBy_cons]
    apply ih
    by_cases hp : Go.contains (withFields ',' a v (new.map initcolToken)) (initcolToken p')
    · rw [if_pos hp]
      exact h
    · rw [if_neg hp]
      exact mem_cons_of_mem _ h

lemma infix_withFields_tokens (hp : Endless endsAction p) (hv : Ends endsAction v) :
    initcolToken p <:+: withFields ',' a v (new.map initcolToken) ↔
      initcolToken p <:+: a ++ v ∨ ∃ p' ∈ new, initcolToken p <:+: initcolToken p' := by
  rw [infix_withFields_iff (endless_initcolToken.mpr hp) rfl hv]
  simp

lemma infix_addedBy (hp : Endless endsAction p) (hv : Ends endsAction v)
    (h : initcolToken p <:+: withFields ',' a v (new.map initcolToken)) :
    initcolToken p <:+: withFields ',' a v ((addedBy a v ps new).map initcolToken) := by
  rw [infix_withFields_tokens hp hv] at h ⊢
  exact h.imp_right fun ⟨p', hp', hfound⟩ => ⟨p', mem_addedBy_of_mem hp', hfound⟩

lemma mem_of_mem_addedBy (hv : Ends endsAction v) (h : p ∈ addedBy a v ps new) :
    p ∈ new ∨ p ∈ ps ∧ (Endless endsAction p →
      ¬ initcolToken p <:+: withFields ',' a v (new.map initcolToken)) := by
  induction ps generalizing new with
  | nil => exact .inl h
  | cons p' ps ih =>
    rw [addedBy_cons] at h
    by_cases hp' : Go.contains (withFields ',' a v (new.map initcolToken)) (initcolToken p')
    · rw [if_pos hp'] at h
      exact (ih h).imp_right fun ⟨hps, hnone⟩ => ⟨mem_cons_of_mem _ hps, hnone⟩
    · rw [if_neg hp'] at h
      obtain h | ⟨hps, hnone⟩ := ih h
      · obtain rfl | h := mem_cons.mp h
        · exact .inr ⟨mem_cons_self, fun _ hfound => hp' (Go.contains_iff_infix.mpr hfound)⟩
        · exact .inl h
      · refine .inr ⟨mem_cons_of_mem _ hps, fun hp hfound => hnone hp ?_⟩
        rw [infix_withFields_tokens hp hv] at hfound ⊢
        exact hfound.imp_right fun ⟨p₀, hp₀, h₀⟩ => ⟨p₀, mem_cons_of_mem _ hp₀, h₀⟩

lemma infix_of_mem_processed (hp : Endless endsAction p) (hv : Ends endsAction v) (h : p ∈ ps) :
    initcolToken p <:+: withFields ',' a v ((addedBy a v ps new).map initcolToken) := by
  obtain ⟨before, behind, rfl⟩ := append_of_mem h
  rw [addedBy_append, addedBy_cons]
  apply infix_addedBy hp hv
  by_cases hcontains : Go.contains
      (withFields ',' a v ((addedBy a v before new).map initcolToken)) (initcolToken p)
  · rw [if_pos hcontains]
    exact Go.contains_iff_infix.mp hcontains
  · rw [if_neg hcontains, infix_withFields_tokens hp hv]
    exact .inr ⟨p, mem_cons_self, infix_refl _⟩

lemma not_infix_of_mem_addedBy {earlier later : List (List Char)} {p' : List Char}
    (hp : Endless endsAction p) (hp' : Endless endsAction p') (hv : Ends endsAction v)
    (hadded : p ∈ addedBy a v (earlier ++ p :: later) [])
    (hadded' : p' ∈ addedBy a v (earlier ++ p :: later) []) (hfirst : p ∉ earlier)
    (hearlier : p' ∈ earlier) : ¬ initcolToken p <:+: initcolToken p' := by
  rw [addedBy_append] at hadded hadded'
  -- the loop has come to `p'`, so it is put in by then or never
  have hmem' : p' ∈ addedBy a v earlier [] := by
    obtain hmem | ⟨_, hnone⟩ := mem_of_mem_addedBy hv hadded'
    · exact hmem
    · exact absurd (infix_of_mem_processed hp' hv hearlier) (hnone hp')
  obtain hmem | ⟨_, hnone⟩ := mem_of_mem_addedBy hv hadded
  · obtain hnil | ⟨hps, _⟩ := mem_of_mem_addedBy hv hmem
    · exact absurd hnil not_mem_nil
    · exact absurd hps hfirst
  · intro hfound
    exact hnone hp ((infix_withFields_tokens hp hv).mpr (.inr ⟨p', hmem', hfound⟩))

end

/-! ## When each parameter is in its place -/

/-- crslang printed all parameters of the link. -/
def PrintedLink.Complete (l : PrintedLink) : Prop := ∀ p ∈ l.params, HasToken l.actions p

/-- The parameters of the link that crslang dropped. -/
def PrintedLink.missing (l : PrintedLink) : List (List Char) :=
  l.params.filter fun p => ¬ HasToken l.actions p

/-- The parameters dropped from the link `l` find their way back into it. -/
structure Insertable (params : List (List Char)) (links : List PrintedLink) (tail : List Char)
    (before : List PrintedLink) (l : PrintedLink) (behind : List PrintedLink) : Prop where
  links_eq : links = before ++ l :: behind
  several : 1 < params.length
  /-- The first `initcol:` of the text is in the link's action list. -/
  ahead : ¬ initcolKey <:+: framed '"' (before.map PrintedLink.segment) l.ahead
  first : initcolKey <:+: l.actions
  others : ∀ other ∈ before ++ behind, other.Complete
  /-- A missing parameter ends no action, and its token is nowhere else in the text. -/
  fresh : ∀ p ∈ l.missing, Endless endsAction p ∧ ¬ initcolToken p <:+: linksText links tail
  /-- Nor is it in the token of a missing parameter that the loop comes to before it. -/
  apart : ∀ earlier p later, params = earlier ++ p :: later → p ∈ l.missing → p ∉ earlier →
    ∀ p' ∈ earlier, p' ∈ l.missing → ¬ initcolToken p <:+: initcolToken p'

/-- Nothing was dropped, or what was dropped comes back to the one link that lacks it. -/
def InitcolsFit {run : MapOrder} {printed : List Char} {dirs : List PlainDirective}
    (r : Rendering run printed dirs) : Prop :=
  (∀ l ∈ r.links, l.Complete) ∨
    ∃ before l behind, Insertable (dirs.flatMap PlainDirective.collect) r.links r.tail before l behind

lemma mem_collectLinks {p : List Char} {links : List ChainLink} :
    p ∈ collectLinks links ↔ ∃ l ∈ links, p ∈ l.params := by
  induction links with
  | nil => simp [collectLinks]
  | cons l links ih =>
    rw [collectLinks, mem_append, ih, or_comm]
    simp

lemma endless_of_hasToken {p : List Char} (h : HasToken actions p) :
    Endless endsAction p := endless_initcolToken.mp (endless_of_mem_splitOnP h)

section
variable {run : MapOrder} {printed : List Char} {dirs : List PlainDirective}
  (r : Rendering run printed dirs)

lemma Rendering.mem_collect {p : List Char} :
    p ∈ dirs.flatMap PlainDirective.collect ↔ ∃ l ∈ r.links, p ∈ l.params := by
  have hlinks : (∃ l ∈ r.links, p ∈ l.params) ↔ ∃ l ∈ dirs.flatMap PlainDirective.links, p ∈ l.params := by
    have hmem : ∀ l, l ∈ r.links.map PrintedLink.link ↔
        l ∈ dirs.flatMap PlainDirective.links ∧ l.nonDisruptive.isSome := by
      intro l
      rw [r.links_eq, mem_filter]
    constructor
    · intro ⟨l, hl, hp⟩
      exact ⟨l.link, ((hmem _).mp (mem_map_of_mem hl)).1, hp⟩
    · intro ⟨l, hl, hp⟩
      have hsome : l.nonDisruptive.isSome := by
        cases hactions : l.nonDisruptive with
        | some _ => rfl
        | none =>
          rw [ChainLink.params, hactions] at hp
          exact absurd hp not_mem_nil
      obtain ⟨l', hl', rfl⟩ := mem_map.mp ((hmem l).mpr ⟨hl, hsome⟩)
      exact ⟨l', hl', hp⟩
  rw [hlinks, mem_flatMap]
  simp only [PlainDirective.collect, mem_collectLinks, mem_flatMap]
  constructor
  · intro ⟨d, hd, l, hl, hp⟩
    exact ⟨l, ⟨d, hd, hl⟩, hp⟩
  · intro ⟨l, ⟨d, hd, hl⟩, hp⟩
    exact ⟨d, hd, l, hl, hp⟩

lemma infix_linksText {p : List Char} (hl : l ∈ links) (h : HasToken l.actions p)
    (tail : List Char) : initcolToken p <:+: linksText links tail := by
  have hseg : l.segment ∈ links.map PrintedLink.segment := mem_map_of_mem hl
  exact (infix_of_mem_splitOnP h).trans (infix_framed_of_mem '"' hseg tail)

lemma Rendering.holds_of_complete (hl : l ∈ r.links) (h : l.Complete) (links : List PrintedLink) : l.Holds links :=
  ⟨h, fun _ _ p _ hp htoken => hp (r.own l hl p htoken)⟩

lemma Rendering.convert_eq :
    convertToSecLangString run printed dirs
      = expandMultiInitcol (linksText r.links r.tail) dirs := by
  rw [convertToSecLangString, r.text_eq]

lemma Rendering.stay_of_complete (h : ∀ l ∈ r.links, l.Complete) :
    StayWithRules r (convertToSecLangString run printed dirs) := by
  refine ⟨r.links, rfl, ?_, fun l hl => r.holds_of_complete hl (h l hl) _⟩
  rw [r.convert_eq]
  simp only [expandMultiInitcol]
  have hall : ∀ p ∈ dirs.flatMap PlainDirective.collect,
      initcolToken p <:+: linksText r.links r.tail := by
    intro p hp
    obtain ⟨l, hl, hpl⟩ := r.mem_collect.mp hp
    exact infix_linksText hl (h l hl p hpl) r.tail
  rw [foldl_insertMissing_of_present hall, ite_self]

/-! ## The link that takes the missing parameters -/

/-- The link with parameters put into its action list, between `y` and `y'`. -/
def PrintedLink.insert (l : PrintedLink) (y y' : List Char) (new : List (List Char)) : PrintedLink :=
  { l with actions := withFields ',' y y' (new.map initcolToken) }

lemma linksText_append_cons (before : List PrintedLink) (l : PrintedLink)
    (behind : List PrintedLink) (tail : List Char) :
    linksText (before ++ l :: behind) tail
      = framed '"' (before.map PrintedLink.segment) l.ahead
        ++ '"' :: (l.actions ++ '"' :: linksText behind tail) := by
  unfold linksText
  rw [map_append, map_cons, framed_append, PrintedLink.segment, framed_cons, framed_append_tail]

lemma withFields_linksText (before : List PrintedLink) (l : PrintedLink)
    (behind : List PrintedLink) (tail y y' : List Char) (new : List (List Char)) :
    withFields ',' (framed '"' (before.map PrintedLink.segment) l.ahead ++ '"' :: y)
        (y' ++ '"' :: linksText behind tail) (new.map initcolToken)
      = linksText (before ++ l.insert y y' new :: behind) tail := by
  rw [linksText_append_cons]
  simp [withFields, PrintedLink.insert]

lemma count_withFields {q c : Char} (hc : c ≠ q) {new : List (List Char)}
    (h : ∀ t ∈ new, q ∉ t) (a v : List Char) :
    (withFields c a v new).count q = (a ++ v).count q := by
  induction new with
  | nil => rfl
  | cons t new ih =>
    rw [forall_mem_cons] at h
    rw [withFields_cons, count_append, count_cons_of_ne hc, count_append,
      count_eq_zero.mpr h.1, Nat.zero_add, ← count_append, ← withFields, ih h.2]

lemma quote_notMem_of_endless {new : List (List Char)} (h : ∀ p ∈ new, Endless endsAction p) :
    ∀ t ∈ new.map initcolToken, '"' ∉ t := by
  intro t ht
  obtain ⟨p, hp, rfl⟩ := mem_map.mp ht
  exact (endless_initcolToken.mpr (h p hp)).notMem rfl

lemma PrintedLink.hasToken_insert {y y' p : List Char} {new : List (List Char)}
    (hactions : l.actions = y ++ y') (hy' : Ends endsAction y')
    (hnew : ∀ p ∈ new, Endless endsAction p) :
    HasToken (l.insert y y' new).actions p ↔ HasToken l.actions p ∨ p ∈ new := by
  unfold HasToken PrintedLink.insert
  simp only
  rw [mem_splitOnP_withFields rfl hy', ← hactions]
  refine or_congr_right ?_
  constructor
  · intro ⟨t, ht, hmem⟩
    obtain ⟨p', hp', rfl⟩ := mem_map.mp ht
    rw [splitOnP_eq_singleton (endless_initcolToken.mpr (hnew p' hp')), mem_singleton] at hmem
    rw [initcolToken_injective hmem]
    exact hp'
  · intro hp
    refine ⟨initcolToken p, mem_map_of_mem hp, ?_⟩
    rw [splitOnP_eq_singleton (endless_initcolToken.mpr (hnew p hp))]
    exact mem_singleton_self _

lemma PrintedLink.mem_missing {p : List Char} :
    p ∈ l.missing ↔ p ∈ l.params ∧ ¬ HasToken l.actions p := by
  rw [PrintedLink.missing, mem_filter, decide_eq_true_eq]

lemma Insertable.cut {params : List (List Char)}
    (h : Insertable params links tail before l behind) :
    ∃ y y', l.actions = y ++ y' ∧ Ends endsAction y' ∧
      cutBehind initcolKey endsAction (linksText links tail)
        = some (framed '"' (before.map PrintedLink.segment) l.ahead ++ '"' :: y,
            y' ++ '"' :: linksText behind tail) := by
  cases hcut : cutBehind initcolKey endsAction l.actions with
  | none => exact absurd h.first ((cutBehind_eq_none_iff initcolKey_ne_nil).mp hcut)
  | some r =>
    obtain ⟨y, y'⟩ := r
    obtain ⟨hactions, hends⟩ := cutBehind_eq_some hcut
    refine ⟨y, y', hactions, hends, ?_⟩
    rw [h.links_eq, linksText_append_cons,
      cutBehind_append_cons_of_none (endless_initcolKey.notMem rfl) h.ahead,
      cutBehind_append_cons_of_some endless_initcolKey rfl hcut, Option.map_some]

lemma Insertable.endless
    (h : Insertable (dirs.flatMap PlainDirective.collect) r.links r.tail before l behind)
    {p : List Char} (hp : p ∈ dirs.flatMap PlainDirective.collect) :
    Endless endsAction p ∧ (p ∈ l.missing ∨ initcolToken p <:+: linksText r.links r.tail) := by
  obtain ⟨l', hl', hpl'⟩ := r.mem_collect.mp hp
  by_cases htoken : HasToken l'.actions p
  · exact ⟨endless_of_hasToken htoken, .inr (infix_linksText hl' htoken r.tail)⟩
  · have hmissing : p ∈ l.missing := by
      rw [h.links_eq, mem_append, mem_cons] at hl'
      obtain hl' | rfl | hl' := hl'
      · exact absurd (h.others l' (mem_append_left _ hl') p hpl') htoken
      · exact PrintedLink.mem_missing.mpr ⟨hpl', htoken⟩
      · exact absurd (h.others l' (mem_append_right _ hl') p hpl') htoken
    exact ⟨(h.fresh p hmissing).1, .inl hmissing⟩

lemma Insertable.mem_addedBy
    (h : Insertable (dirs.flatMap PlainDirective.collect) r.links r.tail before l behind)
    {a v : List Char} (hv : Ends endsAction v) (htext : linksText r.links r.tail = a ++ v)
    (p : List Char) : p ∈ addedBy a v (dirs.flatMap PlainDirective.collect) [] ↔ p ∈ l.missing := by
  -- a parameter that is put in is one that the link lacks
  have hadded : ∀ ps, (∀ p ∈ ps, p ∈ dirs.flatMap PlainDirective.collect) →
      ∀ p ∈ addedBy a v ps [], p ∈ ps ∧ p ∈ l.missing := by
    intro ps hps p hp
    obtain hnil | ⟨hmem, hnone⟩ := mem_of_mem_addedBy hv hp
    · exact absurd hnil not_mem_nil
    · obtain ⟨hendless, hmissing | hfound⟩ := h.endless r (hps p hmem)
      · exact ⟨hmem, hmissing⟩
      · rw [htext] at hfound
        exact absurd hfound (hnone hendless)
  constructor
  · intro hp
    exact (hadded _ (fun _ hp => hp) p hp).2
  · intro hp
    have hmem : p ∈ dirs.flatMap PlainDirective.collect := by
      refine r.mem_collect.mpr ⟨l, ?_, (PrintedLink.mem_missing.mp hp).1⟩
      rw [h.links_eq]
      exact mem_append_right _ mem_cons_self
    -- the first time the loop comes to the parameter
    obtain ⟨earlier, later, hsplit, hfirst⟩ := eq_append_cons_of_mem hmem
    have hnone : ¬ Go.contains (withFields ',' a v ((addedBy a v earlier []).map initcolToken))
        (initcolToken p) := by
      rw [Go.contains_iff_infix, infix_withFields_tokens (h.fresh p hp).1 hv, ← htext]
      intro hfound
      obtain hfound | ⟨p', hp', hfound⟩ := hfound
      · exact (h.fresh p hp).2 hfound
      · obtain ⟨hearlier, hmissing⟩ := hadded earlier (fun p hp => by
          rw [hsplit]
          exact mem_append_left _ hp) p' hp'
        exact h.apart earlier p later hsplit hp hfirst p' hearlier hmissing hfound
    rw [hsplit, addedBy_append, addedBy_cons, if_neg hnone]
    exact mem_addedBy_of_mem mem_cons_self

lemma Insertable.stay
    (h : Insertable (dirs.flatMap PlainDirective.collect) r.links r.tail before l behind) : StayWithRules r (convertToSecLangString run printed dirs) := by
  obtain ⟨y, y', hactions, hends, hcut⟩ := h.cut
  obtain ⟨htext, hv⟩ := cutBehind_eq_some hcut
  have hadded := h.mem_addedBy r hv htext
  generalize hnew : addedBy _ _ (dirs.flatMap PlainDirective.collect) [] = new at hadded
  have hendless : ∀ p ∈ new, Endless endsAction p := fun p hp => (h.fresh p ((hadded p).mp hp)).1
  have hl : l ∈ r.links := by
    rw [h.links_eq]
    exact mem_append_right _ mem_cons_self
  have htoken : ∀ p, HasToken (l.insert y y' new).actions p ↔ p ∈ l.params ∧
      (HasToken l.actions p ∨ p ∈ new) := by
    intro p
    rw [PrintedLink.hasToken_insert hactions hends hendless]
    constructor
    · intro hp
      refine ⟨?_, hp⟩
      obtain hp | hp := hp
      · exact r.own l hl p hp
      · exact (PrintedLink.mem_missing.mp ((hadded p).mp hp)).1
    · exact fun hp => hp.2
  refine ⟨before ++ l.insert y y' new :: behind, ?_, ?_, ?_⟩
  · have hcount : (l.insert y y' new).actions.count '"' = l.actions.count '"' := by
      rw [hactions]
      exact count_withFields (by decide) (quote_notMem_of_endless hendless) y y'
    rw [h.links_eq, map_append, map_append, map_cons, map_cons, hcount]
    rfl
  · rw [r.convert_eq, expandMultiInitcol_of_cut h.several hcut, hnew, withFields_linksText]
  · intro l' hl'
    rw [mem_append, mem_cons] at hl'
    have hother : l' ∈ before ++ behind → l'.Holds (before ++ l.insert y y' new :: behind) := by
      intro hmem
      refine r.holds_of_complete ?_ (h.others l' hmem) _
      rw [h.links_eq, mem_append, mem_cons]
      exact (mem_append.mp hmem).imp_right .inr
    obtain hl' | rfl | hl' := hl'
    · exact hother (mem_append_left _ hl')
    · refine ⟨fun p hp => (htoken p).mpr ⟨hp, ?_⟩, fun _ _ p _ hp ht => hp ((htoken p).mp ht).1⟩
      by_cases hold : HasToken l.actions p
      · exact .inl hold
      · exact .inr ((hadded p).mpr (PrintedLink.mem_missing.mpr ⟨hp, hold⟩))
    · exact hother (mem_append_right _ hl')

/-! ## The other direction -/

lemma shapes_of_links (h : links'.map (fun l => (l.link, l.ahead, l.actions.count '"'))
      = links.map (fun l => (l.link, l.ahead, l.actions.count '"'))) :
    (links'.map PrintedLink.segment).map (shape '"')
      = (links.map PrintedLink.segment).map (shape '"') := by
  have := congrArg (List.map fun s : ChainLink × List Char × ℕ => (s.2.1, s.2.2)) h
  rw [map_map, map_map] at this ⊢
  exact this

lemma counts_eq_of_shapes {segs segs' : List (List Char × List Char)}
    (h : segs'.map (shape '"') = segs.map (shape '"')) :
    segs'.map (fun seg => (seg.1.count '"', seg.2.count '"'))
      = segs.map (fun seg => (seg.1.count '"', seg.2.count '"')) := by
  have := congrArg (List.map fun s : List Char × ℕ => (s.1.count '"', s.2)) h
  rw [map_map, map_map] at this
  exact this

lemma links_eq_of_linksText (hshape : links'.map (fun l => (l.link, l.ahead, l.actions.count '"'))
      = links.map (fun l => (l.link, l.ahead, l.actions.count '"')))
    (h : linksText links' tail = linksText links tail) : links' = links := by
  have hcount := counts_eq_of_shapes (shapes_of_links hshape)
  have hsegs := (framed_inj hcount h).1
  clear h hcount
  induction links generalizing links' with
  | nil => exact map_eq_nil_iff.mp hshape
  | cons l links ih =>
    cases links' with
    | nil => cases hshape
    | cons l' links' =>
      simp only [map_cons, List.cons.injEq, Prod.mk.injEq, PrintedLink.segment] at hshape hsegs
      obtain ⟨⟨hlink, _⟩, hshape⟩ := hshape
      obtain ⟨⟨hahead, hactions⟩, hsegs⟩ := hsegs
      rw [ih hshape hsegs]
      congr 1
      cases l
      cases l'
      simp only at hlink hahead hactions
      rw [hlink, hahead, hactions]

lemma lt_length_withFields {c : Char} {new : List (List Char)} (h : new ≠ [])
    (a v : List Char) : (a ++ v).length < (withFields c a v new).length := by
  obtain ⟨t, new, rfl⟩ := exists_cons_of_ne_nil h
  rw [withFields_cons]
  simp only [length_append, length_cons]
  omega

lemma not_framed_of_outside {segs segs' : List (List Char × List Char)} {a v : List Char}
    {new : List (List Char)} (hne : new ≠ []) (hquote : ∀ t ∈ new, '"' ∉ t)
    (hshape : segs'.map (shape '"') = segs.map (shape '"'))
    (houtside : (∃ before f g x behind, segs = before ++ (f ++ g, x) :: behind ∧
        a = framed '"' before f ∧ v = g ++ '"' :: (x ++ '"' :: framed '"' behind tail)) ∨
      ∃ f g, tail = f ++ g ∧ a = framed '"' segs f ∧ v = g) :
    withFields ',' a v new ≠ framed '"' segs' tail := by
  intro h
  obtain ⟨before, f, g, x, behind, rfl, rfl, rfl⟩ | ⟨f, g, rfl, rfl, rfl⟩ := houtside
  · have htext : withFields ',' (framed '"' before f) (g ++ '"' :: (x ++ '"' :: framed '"' behind tail)) new
        = framed '"' (before ++ (withFields ',' f g new, x) :: behind) tail := by
      rw [framed_append, framed_cons, withFields, withFields, append_assoc, append_assoc,
        framed_append_tail]
    have hcount : (before ++ (withFields ',' f g new, x) :: behind).map
          (fun seg => (seg.1.count '"', seg.2.count '"'))
        = segs'.map (fun seg => (seg.1.count '"', seg.2.count '"')) := by
      rw [counts_eq_of_shapes hshape, map_append, map_append, map_cons,
        map_cons, count_withFields (by decide) hquote]
    rw [htext] at h
    have hsegs := (framed_inj hcount h).1
    have hframes : (before ++ (withFields ',' f g new, x) :: behind).map Prod.fst
        = (before ++ (f ++ g, x) :: behind).map Prod.fst := by
      rw [hsegs]
      have := congrArg (List.map Prod.fst) hshape
      rw [map_map, map_map] at this
      exact this
    rw [map_append, map_append, append_cancel_left_eq, map_cons, map_cons,
      List.cons.injEq] at hframes
    have hsame : withFields ',' f g new = f ++ g := hframes.1
    have hlt := lt_length_withFields (c := ',') hne f g
    rw [hsame] at hlt
    omega
  · have htext : withFields ',' (framed '"' segs f) v new = framed '"' segs (withFields ',' f v new) := by
      rw [withFields, withFields, framed_append_tail]
    rw [htext] at h
    have hlt := lt_length_withFields (c := ',') hne f v
    rw [(framed_inj (counts_eq_of_shapes hshape).symm h).2] at hlt
    omega

lemma Rendering.insertable_of_inside {y y' : List Char}
    (hshape : links'.map (fun l => (l.link, l.ahead, l.actions.count '"'))
      = r.links.map (fun l => (l.link, l.ahead, l.actions.count '"')))
    (hholds : ∀ l ∈ links', l.Holds links') (hlinks : r.links = before ++ l :: behind)
    (hlen : 1 < (dirs.flatMap PlainDirective.collect).length)
    (hnone : ¬ initcolKey <:+: framed '"' (before.map PrintedLink.segment) l.ahead)
    (hactions : cutBehind initcolKey endsAction l.actions = some (y, y')) {new : List (List Char)}
    (hnew : addedBy
      (framed '"' (before.map PrintedLink.segment) l.ahead ++ '"' :: y)
      (y' ++ '"' :: linksText behind r.tail) (dirs.flatMap PlainDirective.collect) [] = new)
    (hendless : ∀ p ∈ new, Endless endsAction p)
    (hout : linksText (before ++ l.insert y y' new :: behind) r.tail = linksText links' r.tail) :
    Insertable (dirs.flatMap PlainDirective.collect) r.links r.tail before l behind := by
  obtain ⟨hsplit, hends⟩ := cutBehind_eq_some hactions
  have hv : Ends endsAction (y' ++ '"' :: linksText behind r.tail) := by
    obtain rfl | ⟨d, y'', hd, rfl⟩ := hends
    · exact .inr ⟨'"', _, rfl, rfl⟩
    · exact .inr ⟨d, _, hd, rfl⟩
  -- the text determines the links: only the action list of `l` has changed
  have hlinks' : links' = before ++ l.insert y y' new :: behind := by
    refine links_eq_of_linksText ?_ hout.symm
    have hcount : (l.insert y y' new).actions.count '"' = l.actions.count '"' := by
      rw [hsplit]
      exact count_withFields (by decide) (quote_notMem_of_endless hendless) y y'
    rw [hshape, hlinks, map_append, map_append, map_cons, map_cons, hcount]
    rfl
  rw [hlinks'] at hholds
  have hadded : ∀ p ∈ l.missing, p ∈ new := by
    intro p hp
    obtain ⟨hparam, hnotoken⟩ := PrintedLink.mem_missing.mp hp
    have htoken := (hholds (l.insert y y' new)
      (mem_append_right _ mem_cons_self)).1 p hparam
    rw [PrintedLink.hasToken_insert hsplit hends hendless] at htoken
    exact htoken.resolve_left hnotoken
  refine ⟨hlinks, hlen, hnone, ?_, ?_, ?_, ?_⟩
  · by_contra hfirst
    rw [(cutBehind_eq_none_iff initcolKey_ne_nil).mpr hfirst] at hactions
    cases hactions
  · intro other hother
    refine (hholds other ?_).1
    rw [mem_append, mem_cons]
    exact (mem_append.mp hother).imp_right .inr
  · intro p hp
    refine ⟨hendless p (hadded p hp), fun hfound => ?_⟩
    have hmem := hadded p hp
    rw [← hnew] at hmem
    obtain hnil | ⟨_, hfresh⟩ := mem_of_mem_addedBy hv hmem
    · exact absurd hnil not_mem_nil
    · refine hfresh (hendless p (hadded p hp)) ?_
      rw [hlinks, linksText_append_cons, hsplit] at hfound
      simpa only [withFields, map_nil, flatMap_nil, nil_append, append_assoc,
        cons_append] using hfound
  · intro earlier p later hparams hp hfirst p' hearlier hp'
    rw [hparams] at hnew
    have hmem := hadded p hp
    have hmem' := hadded p' hp'
    rw [← hnew] at hmem hmem'
    exact not_infix_of_mem_addedBy (hendless p (hadded p hp)) (hendless p' (hadded p' hp')) hv
      hmem hmem' hfirst hearlier

lemma Rendering.fit_of_stay (h : StayWithRules r (convertToSecLangString run printed dirs)) : InitcolsFit r := by
  obtain ⟨links', hshape, hout, hholds⟩ := h
  rw [r.convert_eq] at hout
  -- a text that stays as it is has all tokens
  have hsame : expandMultiInitcol (linksText r.links r.tail) dirs = linksText r.links r.tail →
      InitcolsFit r := by
    intro heq
    rw [heq] at hout
    have hlinks := links_eq_of_linksText hshape hout.symm
    rw [hlinks] at hholds
    exact .inl fun l hl => (hholds l hl).1
  have hendless : ∀ p ∈ dirs.flatMap PlainDirective.collect, Endless endsAction p := by
    intro p hp
    obtain ⟨l, hl, hpl⟩ := r.mem_collect.mp hp
    have hmem : (l.link, l.ahead, l.actions.count '"')
        ∈ links'.map (fun l => (l.link, l.ahead, l.actions.count '"')) := by
      rw [hshape]
      exact mem_map_of_mem hl
    obtain ⟨l', hl', heq⟩ := mem_map.mp hmem
    have hlink : l'.link = l.link := (Prod.mk.inj heq).1
    refine endless_of_hasToken ((hholds l' hl').1 p ?_)
    rw [PrintedLink.params, hlink]
    exact hpl
  by_cases hlen : 1 < (dirs.flatMap PlainDirective.collect).length
  case neg =>
    apply hsame
    rw [expandMultiInitcol, if_pos (by omega)]
  cases hcut : cutBehind initcolKey endsAction (linksText r.links r.tail) with
  | none =>
    apply hsame
    rw [expandMultiInitcol, foldl_insertMissing_of_none hcut, ite_self]
  | some cut =>
    obtain ⟨a, v⟩ := cut
    obtain ⟨htext, hv⟩ := cutBehind_eq_some hcut
    have hexpand := expandMultiInitcol_of_cut hlen hcut
    generalize hnew : addedBy a v (dirs.flatMap PlainDirective.collect) [] = new at hexpand
    by_cases hne : new = []
    · apply hsame
      rw [hexpand, hne, htext]
      rfl
    have hnewless : ∀ p ∈ new, Endless endsAction p := by
      intro p hp
      rw [← hnew] at hp
      obtain hnil | ⟨hmem, _⟩ := mem_of_mem_addedBy hv hp
      · exact absurd hnil not_mem_nil
      · exact hendless p hmem
    have hquote := quote_notMem_of_endless hnewless
    have hmap : new.map initcolToken ≠ [] := fun hnil => hne (map_eq_nil_iff.mp hnil)
    rw [hexpand] at hout
    obtain hahead | hin | htail :=
      cutBehind_framed initcolKey_ne_nil endless_initcolKey rfl hcut
    · exact absurd hout (not_framed_of_outside hmap hquote (shapes_of_links hshape) (.inl hahead))
    · obtain ⟨before', f, x, behind', y, y', hsegs, hnone, hactions, rfl, rfl⟩ := hin
      obtain ⟨before, rest, hlinks, hbefore, hrest⟩ := map_eq_append_iff.mp hsegs
      obtain ⟨l, behind, rfl, hl, hbehind⟩ := map_eq_cons_iff.mp hrest
      obtain ⟨rfl, rfl⟩ := Prod.mk.inj hl
      rw [← hbefore] at hout hnone hnew
      rw [← hbehind] at hout hnew
      rw [framed_append_tail] at hout hnew
      have hinsert := withFields_linksText before l behind r.tail y y' new
      exact .inr ⟨before, l, behind, r.insertable_of_inside hshape hholds hlinks hlen hnone hactions
        hnew hnewless (hinsert.symm.trans hout)⟩
    · exact absurd hout (not_framed_of_outside hmap hquote (shapes_of_links hshape) (.inr htail))

/-- In the text of `ConvertToSecLangString` every `initcol` parameter is in the action list of its
rule, and in none of a rule that does not have it, exactly when crslang dropped none, or when it
dropped parameters of one link only, the text's first `initcol:` is in that link's action list, and
no dropped parameter is taken for present. -/
theorem stayWithRules_iff_fit (r : Rendering run printed dirs) :
    StayWithRules r (convertToSecLangString run printed dirs) ↔ InitcolsFit r := by
  constructor
  · exact r.fit_of_stay
  · intro h
    obtain hcomplete | ⟨before, l, behind, hinsertable⟩ := h
    · exact r.stay_of_complete hcomplete
    · exact hinsertable.stay r

end

/-- An `initcol` action with a parameter. -/
def initcolAction (p : String) : PrintableAction :=
  ⟨"initcol".toList, some p.toList, "initcol:'".toList ++ p.toList ++ ['\'']⟩

/-- Two actions, the second one with two collections. -/
def twoCollections : List PlainDirective :=
  [.chain ⟨some [initcolAction "global=global"]⟩ [],
    .chain ⟨some [initcolAction "ip=a", initcolAction "user=b"]⟩ []]

/-- What crslang prints for them: the second collection of the second action is dropped. -/
def twoCollectionsText : List Char :=
  ("SecAction \\\n    \"id:1,\\\n    initcol:'global=global'\"\n"
    ++ "SecAction \\\n    \"id:2,\\\n    initcol:'ip=a'\"\n").toList

def globalLink : PrintedLink :=
  ⟨⟨some [initcolAction "global=global"]⟩, "SecAction ".toList,
    "id:1,initcol:global=global".toList⟩

def userLink : PrintedLink :=
  ⟨⟨some [initcolAction "ip=a", initcolAction "user=b"]⟩, "\nSecAction ".toList,
    "id:2,initcol:ip=a".toList⟩

lemma own_of_splitOnP {only p : List Char}
    (hsplit : actions.splitOnP endsAction = ["id:1".toList, initcolToken only] ∨
      actions.splitOnP endsAction = ["id:2".toList, initcolToken only]) (h : HasToken actions p) : p = only := by
  unfold HasToken at h
  have hid : ∀ c : Char, initcolToken p ≠ ['i', 'd', ':', c] := by
    intro c heq
    cases heq
  obtain hsplit | hsplit := hsplit
  all_goals
    rw [hsplit, mem_cons, mem_singleton] at h
    obtain h | h := h
    · exact absurd h (hid _)
    · exact initcolToken_injective h

def twoCollectionsRendering : Rendering declaredOrder twoCollectionsText twoCollections where
  links := [globalLink, userLink]
  tail := "\n".toList
  links_eq := by decide
  text_eq := by decide +kernel
  own := by
    intro l hl p htoken
    simp only [mem_cons, not_mem_nil, or_false] at hl
    obtain rfl | rfl := hl
    · have hp : p = "global=global".toList := own_of_splitOnP (.inl (by decide)) htoken
      rw [hp]
      decide
    · have hp : p = "ip=a".toList := own_of_splitOnP (.inr (by decide)) htoken
      rw [hp]
      decide

/-- The second action's collection goes to the first action. -/
theorem twoCollections_misplaced :
    convertToSecLangString declaredOrder twoCollectionsText twoCollections
      = ("SecAction \"id:1,initcol:global=global,initcol:user=b\"\n"
          ++ "SecAction \"id:2,initcol:ip=a\"\n").toList ∧
    ¬ StayWithRules twoCollectionsRendering
      (convertToSecLangString declaredOrder twoCollectionsText twoCollections) := by
  refine ⟨by decide +kernel, fun hstay => ?_⟩
  have hincomplete : ¬ userLink.Complete := fun h =>
    absurd (h "user=b".toList (by decide)) (by decide)
  obtain hcomplete | ⟨before, l, behind, h⟩ := twoCollectionsRendering.fit_of_stay hstay
  · exact hincomplete (hcomplete userLink (mem_cons_of_mem _ mem_cons_self))
  · have hlinks : [globalLink, userLink] = before ++ l :: behind := h.links_eq
    cases before with
    | nil =>
      -- the first link takes the parameter, but the second one lacks it
      obtain ⟨rfl, rfl⟩ := List.cons.inj hlinks
      exact hincomplete (h.others userLink mem_cons_self)
    | cons first before =>
      obtain ⟨rfl, hrest⟩ := List.cons.inj hlinks
      refine h.ahead (List.IsInfix.trans ?_ (infix_framed_of_mem '"' mem_cons_self l.ahead))
      decide

end KubeWaf.Seclang
