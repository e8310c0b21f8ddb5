import Mathlib.Data.List.TakeWhile

/-!
# Scanning a text with an automaton

A scanner reads characters until its automaton stops, and cuts the text there. What it cuts off
depends on nothing that comes later, so a piece that one scanner has read can be followed by any
other text. The automaton of string literals is the one that most scanners carry along.
-/

namespace KubeWaf.Lib

open List

section
variable {σ : Type}

/-- Read characters until `step` stops. The character at which it stops belongs to what is read;
a text that ends before gives nothing. -/
def scanUntil (step : σ → Char → Option σ) : σ → List Char → Option (List Char × List Char)
  | _, [] => none
  | st, c :: s =>
    match step st c with
    | none => some ([c], s)
    | some st' => (scanUntil step st' s).map fun (text, rest) => (c :: text, rest)

/-- The state of an automaton after a text, when it does not stop in it. -/
def runThrough (step : σ → Char → Option σ) : σ → List Char → Option σ
  | st, [] => some st
  | st, c :: s => (step st c).bind fun st' => runThrough step st' s

variable {step : σ → Char → Option σ} {st st' : σ} {c : Char} {s text rest : List Char}

lemma scanUntil_cons_stop (h : step st c = none) :
    scanUntil step st (c :: s) = some ([c], s) := by
  rw [scanUntil, h]

lemma scanUntil_cons_go (h : step st c = some st') :
    scanUntil step st (c :: s) =
      (scanUntil step st' s).map fun (text, rest) => (c :: text, rest) := by
  rw [scanUntil, h]

lemma scanUntil_of_go (hgo : step st c = some st')
    (h : scanUntil step st (c :: s) = some (text, rest)) :
    ∃ t, text = c :: t ∧ scanUntil step st' s = some (t, rest) := by
  rw [scanUntil_cons_go hgo, Option.map_eq_some_iff] at h
  obtain ⟨⟨t, rest'⟩, hscan, heq⟩ := h
  obtain ⟨rfl, rfl⟩ := Prod.mk.inj heq
  exact ⟨t, rfl, hscan⟩

lemma scanUntil_eq_some (h : scanUntil step st s = some (text, rest)) :
    ∃ body c end', text = body ++ [c] ∧ s = text ++ rest ∧
      runThrough step st body = some end' ∧ step end' c = none := by
  induction s generalizing st text with
  | nil => simp [scanUntil] at h
  | cons c s ih =>
    cases hstep : step st c with
    | none =>
      rw [scanUntil_cons_stop hstep] at h
      simp only [Option.some.injEq, Prod.mk.injEq] at h
      refine ⟨[], c, st, h.1.symm, ?_, rfl, hstep⟩
      rw [← h.1, ← h.2]
      rfl
    | some st' =>
      obtain ⟨text', rfl, hscan⟩ := scanUntil_of_go hstep h
      obtain ⟨body, d, end', htext, hs, hrun, hstop⟩ := ih hscan
      refine ⟨c :: body, d, end', ?_, ?_, ?_, hstop⟩
      · rw [htext]
        rfl
      · rw [hs]
        rfl
      · rw [runThrough, hstep]
        exact hrun

lemma scanUntil_append (h : scanUntil step st s = some (text, rest)) : s = text ++ rest := by
  obtain ⟨_, _, _, _, hs, _⟩ := scanUntil_eq_some h
  exact hs

lemma scanUntil_suffix (h : scanUntil step st s = some (text, rest)) : rest <:+ s := by
  rw [scanUntil_append h]
  exact suffix_append _ _

lemma scanUntil_cons_eq_some (h : scanUntil step st (c :: s) = some (text, rest)) :
    ∃ t, text = c :: t ∧ s = t ++ rest := by
  obtain ⟨body, d, _, htext, hs, _, _⟩ := scanUntil_eq_some h
  cases text with
  | nil => exact absurd htext (by simp)
  | cons e t =>
    rw [cons_append, List.cons.injEq] at hs
    exact ⟨t, by rw [hs.1], hs.2⟩

lemma scanUntil_runThrough {body : List Char} (h : runThrough step st body = some st') :
    scanUntil step st (body ++ s) =
      (scanUntil step st' s).map fun (text, rest) => (body ++ text, rest) := by
  induction body generalizing st with
  | nil =>
    simp only [runThrough, Option.some.injEq] at h
    rw [h]
    simp
  | cons c body ih =>
    obtain ⟨mid, hstep, hrun⟩ := Option.bind_eq_some_iff.mp h
    rw [cons_append, scanUntil_cons_go hstep, ih hrun, Option.map_map]
    rfl

lemma scanUntil_of_body {body : List Char} (hrun : runThrough step st body = some st')
    (hstop : step st' c = none) :
    scanUntil step st (body ++ c :: rest) = some (body ++ [c], rest) := by
  rw [scanUntil_runThrough hrun, scanUntil_cons_stop hstop]
  rfl

lemma scanUntil_text_append (h : scanUntil step st s = some (text, rest))
    (other : List Char) : scanUntil step st (text ++ other) = some (text, other) := by
  obtain ⟨body, c, end', rfl, _, hrun, hstop⟩ := scanUntil_eq_some h
  rw [append_assoc, singleton_append]
  exact scanUntil_of_body hrun hstop

lemma runThrough_append {a b : List Char} :
    runThrough step st (a ++ b) = (runThrough step st a).bind fun st' => runThrough step st' b := by
  induction a generalizing st with
  | nil => rfl
  | cons c a ih =>
    rw [cons_append, runThrough, runThrough, Option.bind_assoc]
    congr 1
    funext st'
    exact ih

end

/-! ## String literals -/

/-- Where a reader is with respect to string literals in single or double quotes: outside of any,
inside one, or inside one and behind a backslash. -/
inductive Quote where
  | outside
  | inside (quote : Char)
  | escaped (quote : Char)
deriving DecidableEq

def isQuote (c : Char) : Bool := c == '"' || c == '\''

def Quote.next : Quote → Char → Quote
  | .outside, c => if isQuote c then .inside c else .outside
  | .inside quote, c =>
    if c = '\\' then .escaped quote else if c = quote then .outside else .inside quote
  | .escaped quote, _ => .inside quote

/-- Read on as long as the reader is in a literal. -/
def literalStep (st : Quote) (c : Char) : Option Quote :=
  match st.next c with
  | .outside => none
  | st' => some st'

/-- Read on as long as no character of `bad` stands outside of a literal. -/
def guardStep (bad : Char → Bool) (st : Quote) (c : Char) : Option Quote :=
  if st = .outside ∧ bad c then none else some (st.next c)

/-- All literals of the text are closed, and no character of `bad` stands outside of them. -/
def Closed (bad : Char → Bool) (s : List Char) : Prop :=
  runThrough (guardStep bad) .outside s = some .outside

instance (bad : Char → Bool) (s : List Char) : Decidable (Closed bad s) :=
  inferInstanceAs (Decidable (_ = _))

section
variable {bad : Char → Bool} {st st' : Quote} {c : Char} {a b s : List Char}

lemma guardStep_eq_some (h : guardStep bad st c = some st') :
    (st = .outside → bad c = false) ∧ st' = st.next c := by
  rw [guardStep] at h
  split_ifs at h with hbad
  refine ⟨?_, (Option.some.inj h).symm⟩
  intro hst
  by_contra hc
  exact hbad ⟨hst, by simpa using hc⟩

lemma guardStep_of_good (h : st = .outside → bad c = false) :
    guardStep bad st c = some (st.next c) := by
  rw [guardStep, if_neg]
  intro hbad
  rw [h hbad.1] at hbad
  exact absurd hbad.2 (by decide)

lemma Closed.append (ha : Closed bad a) (hb : Closed bad b) : Closed bad (a ++ b) := by
  rw [Closed, runThrough_append, ha, Option.bind_some]
  exact hb

lemma closed_nil : Closed bad [] := rfl

lemma Closed.head (h : Closed bad (c :: s)) : bad c = false := by
  rw [Closed, runThrough, Option.bind_eq_some_iff] at h
  obtain ⟨_, hstep, _⟩ := h
  exact (guardStep_eq_some hstep).1 rfl

lemma next_of_not_quote (h : isQuote c = false) : Quote.outside.next c = .outside := by
  rw [Quote.next, h]
  rfl

lemma runThrough_of_not_quote (hquote : ∀ c ∈ s, isQuote c = false)
    (h : runThrough (guardStep bad) .outside s = some st) : st = .outside := by
  induction s with
  | nil => exact (Option.some.inj h).symm
  | cons c s ih =>
    obtain ⟨mid, hstep, hrun⟩ := Option.bind_eq_some_iff.mp h
    have hmid : mid = .outside := by
      rw [(guardStep_eq_some hstep).2, next_of_not_quote (hquote c mem_cons_self)]
    rw [hmid] at hrun
    exact ih (fun d hd => hquote d (mem_cons_of_mem _ hd)) hrun

lemma closed_of_plain (hquote : ∀ c ∈ s, isQuote c = false) (hbad : ∀ c ∈ s, bad c = false) :
    Closed bad s := by
  induction s with
  | nil => exact closed_nil
  | cons c s ih =>
    have hc : isQuote c = false := hquote c mem_cons_self
    rw [Closed, runThrough, guardStep_of_good fun _ => hbad c mem_cons_self,
      Option.bind_some, next_of_not_quote hc]
    exact ih (fun d hd => hquote d (mem_cons_of_mem _ hd))
      fun d hd => hbad d (mem_cons_of_mem _ hd)

lemma Closed.of_append_left (h : Closed bad (a ++ b)) (hquote : ∀ c ∈ a, isQuote c = false) :
    Closed bad b := by
  rw [Closed, runThrough_append, Option.bind_eq_some_iff] at h
  obtain ⟨mid, hrun, hb⟩ := h
  rw [runThrough_of_not_quote hquote hrun] at hb
  exact hb

lemma runThrough_inside_of_not_quote (hquote : ∀ c ∈ s, isQuote c = false)
    (hst : ∃ q, (st = .inside q ∨ st = .escaped q) ∧ isQuote q = true)
    (h : runThrough (guardStep bad) st s = some st') : st' ≠ .outside := by
  induction s generalizing st with
  | nil =>
    obtain ⟨q, hst | hst, _⟩ := hst
    all_goals
      rw [← Option.some.inj h, hst]
      simp
  | cons c s ih =>
    obtain ⟨mid, hstep, hrun⟩ := Option.bind_eq_some_iff.mp h
    have hc : isQuote c = false := hquote c mem_cons_self
    refine ih (fun d hd => hquote d (mem_cons_of_mem _ hd)) ?_ hrun
    rw [(guardStep_eq_some hstep).2]
    obtain ⟨q, hst | hst, hq⟩ := hst
    · have hne : c ≠ q := by
        intro heq
        rw [heq, hq] at hc
        exact absurd hc (by decide)
      refine ⟨q, ?_, hq⟩
      rw [hst, Quote.next]
      by_cases hslash : c = '\\'
      · rw [if_pos hslash]
        exact .inr rfl
      · rw [if_neg hslash, if_neg hne]
        exact .inl rfl
    · exact ⟨q, .inl (by rw [hst, Quote.next]), hq⟩

lemma reached_quote (h : runThrough (guardStep bad) .outside s = some st) :
    st = .outside ∨ ∃ q, (st = .inside q ∨ st = .escaped q) ∧ isQuote q = true := by
  have hgen : ∀ (s : List Char) (st₀ : Quote),
      (st₀ = .outside ∨ ∃ q, (st₀ = .inside q ∨ st₀ = .escaped q) ∧ isQuote q = true) →
      runThrough (guardStep bad) st₀ s = some st →
      st = .outside ∨ ∃ q, (st = .inside q ∨ st = .escaped q) ∧ isQuote q = true := by
    intro s
    induction s with
    | nil =>
      intro st₀ hst₀ hrun
      rwa [← Option.some.inj hrun]
    | cons c s ih =>
      intro st₀ hst₀ hrun
      obtain ⟨mid, hstep, hrun⟩ := Option.bind_eq_some_iff.mp hrun
      refine ih mid ?_ hrun
      rw [(guardStep_eq_some hstep).2]
      rcases hst₀ with rfl | ⟨q, rfl | rfl, hq⟩
      · by_cases hc : isQuote c = true
        · exact .inr ⟨c, .inl (by rw [Quote.next, if_pos hc]), hc⟩
        · exact .inl (next_of_not_quote (by simpa using hc))
      · rw [Quote.next]
        split_ifs
        · exact .inr ⟨q, .inr rfl, hq⟩
        · exact .inl rfl
        · exact .inr ⟨q, .inl rfl, hq⟩
      · exact .inr ⟨q, .inl rfl, hq⟩
  exact hgen s .outside (.inl rfl) h

lemma Closed.of_append_right (h : Closed bad (a ++ b)) (hquote : ∀ c ∈ b, isQuote c = false) :
    Closed bad a := by
  rw [Closed, runThrough_append, Option.bind_eq_some_iff] at h
  obtain ⟨mid, hrun, hb⟩ := h
  rcases reached_quote hrun with rfl | hinside
  · exact hrun
  · exact absurd rfl (runThrough_inside_of_not_quote hquote hinside hb)

lemma scanUntil_literal_of_closed (hst : st ≠ .outside)
    (h : runThrough (guardStep bad) st s = some .outside) :
    ∃ text rest, scanUntil literalStep st s = some (text, rest) ∧ Closed bad rest := by
  induction s generalizing st with
  | nil => exact absurd (Option.some.inj h) hst
  | cons c s ih =>
    obtain ⟨mid, hstep, hrun⟩ := Option.bind_eq_some_iff.mp h
    have hmid : mid = st.next c := (guardStep_eq_some hstep).2
    by_cases hout : mid = .outside
    · have hstop : literalStep st c = none := by
        rw [literalStep, ← hmid, hout]
      rw [hout] at hrun
      exact ⟨[c], s, scanUntil_cons_stop hstop, hrun⟩
    · have hgo : literalStep st c = some mid := by
        rw [literalStep, ← hmid]
        cases mid with
        | outside => exact absurd rfl hout
        | inside q => rfl
        | escaped q => rfl
      obtain ⟨text, rest, hscan, hrest⟩ := ih hout hrun
      refine ⟨c :: text, rest, ?_, hrest⟩
      rw [scanUntil_cons_go hgo, hscan]
      rfl

lemma runThrough_guard_of_literal (h : runThrough literalStep st s = some st')
    (hst : st ≠ .outside) : runThrough (guardStep bad) st s = some st' := by
  induction s generalizing st with
  | nil => exact h
  | cons c s ih =>
    obtain ⟨mid, hstep, hrun⟩ := Option.bind_eq_some_iff.mp h
    have hmid : st.next c = mid ∧ mid ≠ .outside := by
      rw [literalStep] at hstep
      cases hnext : st.next c with
      | outside =>
        rw [hnext] at hstep
        cases hstep
      | inside q =>
        rw [hnext] at hstep
        cases hstep
        simp
      | escaped q =>
        rw [hnext] at hstep
        cases hstep
        simp
    rw [runThrough, guardStep_of_good fun hout => absurd hout hst, Option.bind_some, hmid.1]
    exact ih hrun hmid.2

lemma Closed.or {bad' : Char → Bool} (h : Closed bad s) (h' : Closed bad' s) :
    Closed (fun c => bad c || bad' c) s := by
  have hgen : ∀ (s : List Char) (st : Quote), runThrough (guardStep bad) st s = some .outside →
      runThrough (guardStep bad') st s = some .outside →
      runThrough (guardStep fun c => bad c || bad' c) st s = some .outside := by
    intro s
    induction s with
    | nil =>
      intro st h _
      exact h
    | cons c s ih =>
      intro st h h'
      rw [runThrough, Option.bind_eq_some_iff] at h h'
      obtain ⟨mid, hstep, hrun⟩ := h
      obtain ⟨mid', hstep', hrun'⟩ := h'
      have hmid := guardStep_eq_some hstep
      have hmid' := guardStep_eq_some hstep'
      rw [hmid'.2] at hrun'
      rw [hmid.2] at hrun
      rw [runThrough, guardStep_of_good, Option.bind_some]
      · exact ih _ hrun hrun'
      · intro hst
        rw [hmid.1 hst, hmid'.1 hst]
        rfl
  exact hgen s .outside h h'

end

end KubeWaf.Lib
