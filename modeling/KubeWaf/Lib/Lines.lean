import KubeWaf.Lib.FindAll

/-!
# Trimmed lines

`Go.trimmedLines` are the lines of a text without the white space around them, and without those
that are empty then. Trimming a whole text, or joining texts with line feeds, does not change
them.
-/

namespace KubeWaf.Lib.Go

open List

/-- `strings.TrimSpace(s)`, on a list of characters. -/
def trim (s : List Char) : List Char := trimFunc isSpace s

/-- The lines of a text that are not empty, trimmed. -/
def trimmedLines (s : List Char) : List (List Char) := ((lines s).map trim).filter (· ≠ [])

/-- `strings.Join(parts, "\n")` -/
def joinLines (parts : List (List Char)) : List Char := ['\n'].intercalate parts

/-! ## Trimming -/

section
variable {w : List Char} (hw : ∀ c ∈ w, isSpace c = true)
include hw

lemma trim_append_left (s : List Char) : trim (w ++ s) = trim s := by
  rw [trim, trimFunc, dropWhile_append_of_pos hw]
  rfl

lemma trim_append_right (s : List Char) : trim (s ++ w) = trim s := by
  have hdrop : ∀ t : List Char, (t ++ w).rdropWhile isSpace = t.rdropWhile isSpace := by
    intro t
    rw [List.rdropWhile, List.rdropWhile, reverse_append,
      dropWhile_append_of_pos fun c hc => hw c (mem_reverse.mp hc)]
  rw [trim, trim, trimFunc, trimFunc, dropWhile_append]
  by_cases hempty : (s.dropWhile isSpace).isEmpty = true
  · rw [if_pos hempty, List.isEmpty_iff.mp hempty, dropWhile_eq_nil_iff.mpr hw]
  · rw [if_neg hempty, hdrop]

end

lemma exists_eq_trim (s : List Char) :
    ∃ w w', s = w ++ (trim s ++ w') ∧ (∀ c ∈ w, isSpace c = true)
      ∧ ∀ c ∈ w', isSpace c = true := by
  refine ⟨s.takeWhile isSpace, (s.dropWhile isSpace).rtakeWhile isSpace, ?_,
    fun c hc => mem_takeWhile_imp hc, fun c hc => mem_rtakeWhile_imp hc⟩
  rw [trim, trimFunc, rdropWhile_append_rtakeWhile, takeWhile_append_dropWhile]

lemma mem_of_mem_trim {s : List Char} {c : Char} (h : c ∈ trim s) : c ∈ s := by
  obtain ⟨w, w', hs, _, _⟩ := exists_eq_trim s
  rw [hs]
  simp [h]

lemma trim_trim (s : List Char) : trim (trim s) = trim s := by
  obtain ⟨w, w', hs, hw, hw'⟩ := exists_eq_trim s
  nth_rewrite 2 [hs]
  rw [trim_append_left hw, trim_append_right hw']

/-! ## Lines -/

lemma lines_append_cons (s t : List Char) : lines (s ++ '\n' :: t) = lines s ++ lines t :=
  splitOnP_append_cons s t rfl

lemma lines_of_notMem {s : List Char} (h : '\n' ∉ s) : lines s = [s] :=
  splitOnP_eq_singleton fun c hc => by
    rw [beq_eq_false_iff_ne]
    exact fun heq => h (heq ▸ hc)

/-- Induction over the lines of a text. -/
@[elab_as_elim]
lemma linesInduction {P : List Char → Prop} (s : List Char) (last : ∀ s, '\n' ∉ s → P s)
    (feed : ∀ a b, '\n' ∉ a → P b → P (a ++ '\n' :: b)) : P s := by
  have hnotMem : ∀ s : List Char, (∀ c ∈ s, (c == '\n') = false) → '\n' ∉ s :=
    fun s hs hmem => absurd (hs _ hmem) (by decide)
  induction s using piecesInduction (p := (· == '\n')) with
  | last s hs => exact last s (hnotMem s hs)
  | sep a c b ha hc ih =>
    rw [beq_iff_eq.mp hc]
    exact feed a b (hnotMem a ha) ih

lemma mem_of_mem_lines {s line : List Char} (h : line ∈ lines s) {c : Char} (hc : c ∈ line) :
    c ∈ s := by
  induction s using linesInduction with
  | last s hs =>
    rw [lines_of_notMem hs] at h
    exact mem_singleton.mp h ▸ hc
  | feed a b ha ih =>
    rw [lines_append_cons, lines_of_notMem ha, singleton_append, mem_cons] at h
    rcases h with rfl | h
    · exact mem_append_left _ hc
    · exact mem_append_right _ (mem_cons_of_mem _ (ih h))

lemma notMem_of_mem_lines {s line : List Char} (h : line ∈ lines s) : '\n' ∉ line := by
  induction s using linesInduction with
  | last s hs =>
    rw [lines_of_notMem hs] at h
    rw [mem_singleton.mp h]
    exact hs
  | feed a b ha ih =>
    rw [lines_append_cons, lines_of_notMem ha, singleton_append] at h
    rcases mem_cons.mp h with rfl | h
    · exact ha
    · exact ih h

lemma trimmedLines_append_cons (s t : List Char) :
    trimmedLines (s ++ '\n' :: t) = trimmedLines s ++ trimmedLines t := by
  rw [trimmedLines, lines_append_cons, map_append, filter_append]
  rfl

lemma trimmedLines_of_notMem {s : List Char} (h : '\n' ∉ s) :
    trimmedLines s = if trim s = [] then [] else [trim s] := by
  rw [trimmedLines, lines_of_notMem h, map_singleton]
  by_cases hnil : trim s = []
  · rw [if_pos hnil, hnil]
    rfl
  · rw [if_neg hnil]
    exact filter_cons_of_pos (by simpa using hnil)

lemma trimmedLines_cons {c : Char} (hc : isSpace c = true) (s : List Char) :
    trimmedLines (c :: s) = trimmedLines s := by
  by_cases hfeed : c = '\n'
  · rw [hfeed]
    exact trimmedLines_append_cons [] s
  have htrim : ∀ s, trim (c :: s) = trim s := trim_append_left (forall_mem_singleton.mpr hc)
  have hnotMem : ∀ {s}, '\n' ∉ s → '\n' ∉ c :: s := not_mem_cons_of_ne_of_not_mem (Ne.symm hfeed)
  -- the character belongs to the first line
  induction s using linesInduction with
  | last s hs => rw [trimmedLines_of_notMem (hnotMem hs), trimmedLines_of_notMem hs, htrim]
  | feed a b ha _ =>
    rw [← cons_append, trimmedLines_append_cons, trimmedLines_append_cons,
      trimmedLines_of_notMem (hnotMem ha), trimmedLines_of_notMem ha, htrim]

lemma trimmedLines_append_left {w : List Char} (hw : ∀ c ∈ w, isSpace c = true)
    (s : List Char) : trimmedLines (w ++ s) = trimmedLines s := by
  induction w with
  | nil => rfl
  | cons c w ih =>
    obtain ⟨hc, hw⟩ := forall_mem_cons.mp hw
    rw [cons_append, trimmedLines_cons hc, ih hw]

lemma trimmedLines_of_forall {w : List Char} (hw : ∀ c ∈ w, isSpace c = true) :
    trimmedLines w = [] := by
  have h := trimmedLines_append_left hw []
  rwa [append_nil] at h

lemma trimmedLines_append_right {w : List Char} (hw : ∀ c ∈ w, isSpace c = true)
    (s : List Char) : trimmedLines (s ++ w) = trimmedLines s := by
  induction s using linesInduction with
  | last s hs =>
    -- the white space up to its first line feed belongs to the last line
    induction w using linesInduction with
    | last w hfeed =>
      have hall : '\n' ∉ s ++ w := by
        rw [mem_append, not_or]
        exact ⟨hs, hfeed⟩
      rw [trimmedLines_of_notMem hall, trimmedLines_of_notMem hs, trim_append_right hw]
    | feed a b hfeed _ =>
      have ha : ∀ c ∈ a, isSpace c = true := fun c hc => hw c (by simp [hc])
      have hb : ∀ c ∈ b, isSpace c = true := fun c hc => hw c (by simp [hc])
      have hall : '\n' ∉ s ++ a := by
        rw [mem_append, not_or]
        exact ⟨hs, hfeed⟩
      rw [← append_assoc, trimmedLines_append_cons, trimmedLines_of_forall hb, append_nil,
        trimmedLines_of_notMem hall, trimmedLines_of_notMem hs, trim_append_right ha]
  | feed a b _ ih =>
    rw [append_assoc, cons_append, trimmedLines_append_cons, trimmedLines_append_cons, ih]

lemma trimmedLines_trim (s : List Char) : trimmedLines (trim s) = trimmedLines s := by
  obtain ⟨w, w', hs, hw, hw'⟩ := exists_eq_trim s
  nth_rewrite 2 [hs]
  rw [trimmedLines_append_left hw, trimmedLines_append_right hw']

lemma joinLines_cons_cons (part part' : List Char) (parts : List (List Char)) :
    joinLines (part :: part' :: parts) = part ++ '\n' :: joinLines (part' :: parts) := by
  rw [joinLines, intercalate_cons_cons, append_assoc]
  rfl

lemma trimmedLines_joinLines (parts : List (List Char)) :
    trimmedLines (joinLines parts) = parts.flatMap trimmedLines := by
  induction parts with
  | nil => rfl
  | cons part parts ih =>
    cases parts with
    | nil => rw [joinLines, intercalate_singleton, flatMap_singleton]
    | cons part' parts =>
      rw [joinLines_cons_cons, trimmedLines_append_cons, ih, ← flatMap_cons]

end KubeWaf.Lib.Go
