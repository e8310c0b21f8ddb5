import KubeWaf.Lib.GoStrings
import KubeWaf.Lib.Leftmost

/-!
# All matches of an expression, fields and lines of a text

`findAll` collects the successive matches of an expression from left to right, each one behind
the end of the one before (`FindAllStringSubmatch`). `Go.fields` cuts a text at white space and
`Go.lines` at line feeds.
-/

namespace KubeWaf.Lib

open List

section
variable {α β : Type*}

/-- The matches in a text of which the first `skip` characters belong to a match. -/
def findAllFrom (m : Matcher α β) : ℕ → List α → List β
  | _, [] => []
  | skip + 1, _ :: s => findAllFrom m skip s
  | 0, c :: s =>
    match m (c :: s) with
    | some (v, rest) => v :: findAllFrom m (s.length - rest.length) s
    | none => findAllFrom m 0 s

/-- The successive matches of an expression that matches no empty text. -/
def findAll (m : Matcher α β) (s : List α) : List β := findAllFrom m 0 s

variable {m : Matcher α β}

lemma findAllFrom_eq (skip : ℕ) (s : List α) :
    findAllFrom m skip s = findAll m (s.drop skip) := by
  induction s generalizing skip with
  | nil => rw [drop_nil, findAll, findAllFrom, findAllFrom]
  | cons c s ih =>
    cases skip with
    | zero => rfl
    | succ skip => rw [findAllFrom, drop_succ_cons, ih]

lemma findAll_nil : findAll m [] = [] := rfl

lemma findAll_cons_of_none {c : α} {s : List α} (h : m (c :: s) = none) :
    findAll m (c :: s) = findAll m s := by
  rw [findAll, findAllFrom, h]
  rfl

lemma findAll_cons_of_some {c : α} {s pre rest : List α} {v : β}
    (h : m (c :: s) = some (v, rest)) (hrest : s = pre ++ rest) :
    findAll m (c :: s) = v :: findAll m rest := by
  rw [findAll, findAllFrom, h]
  simp only [findAllFrom_eq]
  rw [hrest, length_append, Nat.add_sub_cancel, drop_left]

end

namespace Go

/-- `strings.Fields(s)` -/
def fields (s : List Char) : List (List Char) := (s.splitOnP isSpace).filter (· ≠ [])

/-- `strings.Split(s, "\n")` -/
def lines (s : List Char) : List (List Char) := s.splitOn '\n'

/-- `path.Base(s)` -/
def pathBase (s : List Char) : List Char :=
  if s = [] then ['.']
  else
    let t := s.rdropWhile (· == '/')
    if t = [] then ['/'] else (t.reverse.takeWhile (· != '/')).reverse

/-! ## Fields -/

lemma fields_append_cons {c : Char} (hc : isSpace c = true) (s t : List Char) :
    fields (s ++ c :: t) = fields s ++ fields t := by
  rw [fields, splitOnP_append_cons _ _ hc, filter_append]
  rfl

lemma fields_nil : fields [] = [] := rfl

lemma fields_cons {c : Char} (hc : isSpace c = true) (s : List Char) :
    fields (c :: s) = fields s := by
  rw [← nil_append (c :: s), fields_append_cons hc, fields_nil, nil_append]

lemma fields_append_left {w : List Char} (hw : ∀ c ∈ w, isSpace c = true) (s : List Char) :
    fields (w ++ s) = fields s := by
  induction w with
  | nil => rfl
  | cons c w ih =>
    rw [cons_append, fields_cons (hw c mem_cons_self),
      ih fun d hd => hw d (mem_cons_of_mem _ hd)]

lemma fields_append_right {w : List Char} (hw : ∀ c ∈ w, isSpace c = true) (s : List Char) :
    fields (s ++ w) = fields s := by
  cases w with
  | nil => rw [append_nil]
  | cons c w =>
    have hspaces : fields w = [] := by
      rw [← append_nil w,
        fields_append_left (fun d hd => hw d (mem_cons_of_mem _ hd)), fields_nil]
    rw [fields_append_cons (hw c mem_cons_self), hspaces, append_nil]

lemma mem_fields_of_bounded {s pre post tok : List Char} (h : tok ∈ fields s)
    (hpre : pre = [] ∨ ∃ p c, pre = p ++ [c] ∧ isSpace c = true)
    (hpost : post = [] ∨ ∃ c q, post = c :: q ∧ isSpace c = true) :
    tok ∈ fields (pre ++ (s ++ post)) := by
  have hright : tok ∈ fields (s ++ post) := by
    rcases hpost with rfl | ⟨c, q, rfl, hc⟩
    · rwa [append_nil]
    · rw [fields_append_cons hc]
      exact mem_append_left _ h
  rcases hpre with rfl | ⟨p, c, rfl, hc⟩
  · exact hright
  · rw [append_assoc, singleton_append, fields_append_cons hc]
    exact mem_append_right _ hright

/-- Induction over the pieces of a text between separators. -/
@[elab_as_elim]
lemma piecesInduction {P : List Char → Prop} {p : Char → Bool} (s : List Char)
    (last : ∀ s, (∀ c ∈ s, p c = false) → P s)
    (sep : ∀ a c b, (∀ d ∈ a, p d = false) → p c = true → P b → P (a ++ c :: b)) : P s := by
  -- on what is left of the text, with the piece being read in front
  have hread : ∀ t a : List Char, (∀ c ∈ a, p c = false) → P (a ++ t) := by
    intro t
    induction t with
    | nil =>
      intro a ha
      rw [append_nil]
      exact last a ha
    | cons c t ih =>
      intro a ha
      by_cases hc : p c = true
      · exact sep a c t ha hc (ih [] fun d hd => absurd hd not_mem_nil)
      · have hac : ∀ d ∈ a ++ [c], p d = false := by
          intro d hd
          rcases mem_append.mp hd with hd | hd
          · exact ha d hd
          · rw [mem_singleton.mp hd]
            exact Bool.not_eq_true _ ▸ hc
        have h := ih (a ++ [c]) hac
        rwa [append_assoc, singleton_append] at h
  exact hread s [] fun d hd => absurd hd not_mem_nil

lemma fields_of_noSpace {s : List Char} (hs : ∀ c ∈ s, isSpace c = false) :
    fields s = if s = [] then [] else [s] := by
  rw [fields, splitOnP_eq_singleton hs]
  by_cases hnil : s = []
  · rw [if_pos hnil, hnil]
    rfl
  · rw [if_neg hnil]
    exact filter_cons_of_pos (by simpa using hnil)

lemma of_mem_fields {s tok : List Char} (h : tok ∈ fields s) :
    tok ≠ [] ∧ ∀ c ∈ tok, isSpace c = false ∧ c ∈ s := by
  induction s using piecesInduction (p := isSpace) with
  | last s hs =>
    rw [fields_of_noSpace hs] at h
    by_cases hnil : s = []
    · rw [if_pos hnil] at h
      exact absurd h not_mem_nil
    · rw [if_neg hnil] at h
      rw [mem_singleton.mp h]
      exact ⟨hnil, fun c hc => ⟨hs c hc, hc⟩⟩
  | sep a c b ha hc ih =>
    rw [fields_append_cons hc, fields_of_noSpace ha] at h
    rcases mem_append.mp h with h | h
    · by_cases hnil : a = []
      · rw [if_pos hnil] at h
        exact absurd h not_mem_nil
      · rw [if_neg hnil] at h
        rw [mem_singleton.mp h]
        exact ⟨hnil, fun d hd => ⟨ha d hd, mem_append_left _ hd⟩⟩
    · obtain ⟨hne, hchars⟩ := ih h
      exact ⟨hne, fun d hd => ⟨(hchars d hd).1,
        mem_append_right _ (mem_cons_of_mem c (hchars d hd).2)⟩⟩

/-! ## Base names -/

lemma pathBase_of_notMem {s : List Char} (hne : s ≠ []) (h : '/' ∉ s) : pathBase s = s := by
  have hdrop : s.rdropWhile (· == '/') = s := by
    rw [rdropWhile_eq_self_iff]
    intro hnil hlast
    exact h (beq_iff_eq.mp hlast ▸ getLast_mem hnil)
  have htake : s.reverse.takeWhile (· != '/') = s.reverse := by
    rw [takeWhile_eq_self_iff]
    intro c hc
    rw [bne_iff_ne]
    exact fun heq => h (heq ▸ mem_reverse.mp hc)
  rw [pathBase, if_neg hne, hdrop, if_neg hne, htake, reverse_reverse]

lemma pathBase_cases (s : List Char) :
    pathBase s = ['.'] ∨ pathBase s = ['/']
      ∨ (pathBase s ≠ [] ∧ '/' ∉ pathBase s ∧ ∀ c ∈ pathBase s, c ∈ s) := by
  by_cases hs : s = []
  · exact Or.inl (if_pos hs)
  by_cases ht : s.rdropWhile (· == '/') = []
  · refine Or.inr (Or.inl ?_)
    rw [pathBase, if_neg hs]
    exact if_pos ht
  · have hbase : pathBase s
        = ((s.rdropWhile (· == '/')).reverse.takeWhile (· != '/')).reverse := by
      rw [pathBase, if_neg hs]
      exact if_neg ht
    refine Or.inr (Or.inr ⟨?_, ?_, fun c hc => ?_⟩)
    · -- the path does not end in a slash any more
      have hlast := rdropWhile_last_not (· == '/') s ht
      have hhead : (s.rdropWhile (· == '/')).reverse
          = (s.rdropWhile (· == '/')).getLast ht :: ((s.rdropWhile (· == '/')).dropLast).reverse := by
        conv_lhs => rw [← dropLast_append_getLast ht, reverse_append]
        rfl
      rw [hbase, hhead, takeWhile_cons_of_pos (by simpa using hlast)]
      simp
    · rw [hbase, mem_reverse]
      intro hmem
      have hne := mem_takeWhile_imp hmem
      exact absurd hne (by decide)
    · rw [hbase, mem_reverse] at hc
      have hmem := mem_reverse.mp ((List.takeWhile_prefix _).mem hc)
      exact (List.rdropWhile_prefix _ _).mem hmem

lemma pathBase_pathBase (s : List Char) : pathBase (pathBase s) = pathBase s := by
  rcases pathBase_cases s with h | h | ⟨hne, hslash, _⟩
  · rw [h]
    decide
  · rw [h]
    decide
  · exact pathBase_of_notMem hne hslash

/-! ## Lines -/

lemma exists_of_mem_lines {s line : List Char} (h : line ∈ lines s) :
    ∃ pre post, s = pre ++ (line ++ post) ∧ (pre = [] ∨ ∃ p, pre = p ++ ['\n'])
      ∧ (post = [] ∨ ∃ q, post = '\n' :: q) := by
  have hjoin : ['\n'].intercalate (lines s) = s := intercalate_splitOn '\n'
  rw [← hjoin]
  generalize lines s = ls at h
  induction ls with
  | nil => exact absurd h not_mem_nil
  | cons l ls ih =>
    cases ls with
    | nil =>
      rw [mem_singleton.mp h, intercalate_singleton]
      exact ⟨[], [], by simp, Or.inl rfl, Or.inl rfl⟩
    | cons l' ls =>
      rw [intercalate_cons_cons]
      rcases mem_cons.mp h with rfl | h
      · exact ⟨[], ['\n'] ++ ['\n'].intercalate (l' :: ls), by simp, Or.inl rfl,
          Or.inr ⟨_, rfl⟩⟩
      · obtain ⟨pre, post, hs, hpre, hpost⟩ := ih h
        refine ⟨l ++ ['\n'] ++ pre, post, by rw [hs]; simp, Or.inr ?_, hpost⟩
        rcases hpre with rfl | ⟨p, rfl⟩
        · exact ⟨l, by simp⟩
        · exact ⟨l ++ ['\n'] ++ p, by simp⟩

end Go

end KubeWaf.Lib
