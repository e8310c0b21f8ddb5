import KubeWaf.Lib.Lines
import KubeWaf.Lib.ReplaceAll
import KubeWaf.Seclang.YamlSanitize

/-!
# What is left of the blank lines

The lines of a text are its non-blank lines, each behind a number of blank ones. `CollapseEmptyLines`
caps these numbers, and drops the blank lines at the end (`collapseEmptyLines_correct`).
-/

namespace KubeWaf.Seclang

open Lib List

/-- A line of white space only. -/
def isBlankLine (line : List Char) : Bool := line.all Go.isSpace

/-- The lines of a text; a line feed at the end ends the last line. -/
def textLines (s : List Char) : List (List Char) :=
  if (Go.lines s).getLast? = some [] then (Go.lines s).dropLast else Go.lines s

/-- The non-blank lines, each with the number of blank lines in front of it; `run` of them are in
front of the first line. -/
def gapsFrom : ℕ → List (List Char) → List (ℕ × List Char)
  | _, [] => []
  | run, line :: lines =>
    if isBlankLine line then gapsFrom (run + 1) lines else (run, line) :: gapsFrom 0 lines

/-- What `CollapseEmptyLines` is to make of the lines of a text. -/
structure CollapsedLines (maxEmpty : ℕ) (before after : List (List Char)) : Prop where
  content : after.filter (!isBlankLine ·) = before.filter (!isBlankLine ·)
  runs : ∀ run, run <:+: after → (∀ line ∈ run, isBlankLine line = true) → run.length ≤ maxEmpty
  gaps : gapsFrom 0 after = (gapsFrom 0 before).map fun g => (min g.1 maxEmpty, g.2)
  last : ∀ line ∈ after.getLast?, isBlankLine line = false

/-- The lines with at most `maxEmpty` blank ones in front of each. -/
def layout (maxEmpty : ℕ) (gaps : List (ℕ × List Char)) : List (List Char) :=
  gaps.flatMap fun g => replicate (min g.1 maxEmpty) [] ++ [g.2]

variable {maxEmpty : ℕ} {lines : List (List Char)} {gaps : List (ℕ × List Char)}

lemma mem_gapsFrom {run : ℕ} {g : ℕ × List Char} (h : g ∈ gapsFrom run lines) :
    g.2 ∈ lines ∧ isBlankLine g.2 = false := by
  induction lines generalizing run with
  | nil => cases h
  | cons line lines ih =>
    rw [gapsFrom] at h
    split_ifs at h with hblank
    · exact (ih h).imp_left (mem_cons_of_mem _)
    · rcases mem_cons.mp h with rfl | h
      · exact ⟨mem_cons_self, Bool.eq_false_iff.mpr hblank⟩
      · exact (ih h).imp_left (mem_cons_of_mem _)

lemma map_gapsFrom (run : ℕ) (lines : List (List Char)) :
    (gapsFrom run lines).map Prod.snd = lines.filter (!isBlankLine ·) := by
  induction lines generalizing run with
  | nil => rfl
  | cons line lines ih =>
    rw [gapsFrom, filter_cons]
    split_ifs <;> simp_all

/-- The loop, behind `run` blank lines: the layout of the gaps, and blank lines at the end. -/
lemma collapseRuns_eq (maxEmpty run : ℕ) (lines : List (List Char)) :
    ∃ k, replicate (min run maxEmpty) [] ++ collapseRuns maxEmpty run lines =
      layout maxEmpty (gapsFrom run lines) ++ replicate k [] := by
  induction lines generalizing run with
  | nil => exact ⟨min run maxEmpty, by simp [collapseRuns, gapsFrom, layout]⟩
  | cons line lines ih =>
    rw [collapseRuns, gapsFrom, isBlankLine]
    split_ifs with hblank hrun
    · obtain ⟨k, hk⟩ := ih (run + 1)
      refine ⟨k, ?_⟩
      rw [← hk, min_eq_left hrun, min_eq_left (by omega), replicate_succ']
      simp
    · obtain ⟨k, hk⟩ := ih (run + 1)
      refine ⟨k, ?_⟩
      rw [← hk, min_eq_right (by omega), min_eq_right (by omega)]
    · obtain ⟨k, hk⟩ := ih 0
      refine ⟨k, ?_⟩
      rw [Nat.zero_min, replicate_zero, nil_append] at hk
      rw [hk, layout, layout, flatMap_cons]
      simp

lemma getLast?_layout (gaps : List (ℕ × List Char)) :
    (layout maxEmpty gaps).getLast? = gaps.getLast?.map Prod.snd := by
  induction gaps with
  | nil => rfl
  | cons g gaps ih =>
    rw [layout, flatMap_cons, ← layout, getLast?_append, ih, getLast?_cons]
    cases gaps.getLast? <;> simp

lemma layout_rdropWhile (hgaps : ∀ g ∈ gaps, isBlankLine g.2 = false) (k : ℕ) :
    (layout maxEmpty gaps ++ replicate k []).rdropWhile List.isEmpty = layout maxEmpty gaps := by
  induction k with
  | zero =>
    rw [replicate_zero, append_nil, rdropWhile_eq_self_iff]
    intro hne hempty
    have hlast := getLast?_eq_some_getLast hne
    rw [getLast?_layout, Option.map_eq_some_iff] at hlast
    obtain ⟨g, hg, hlast⟩ := hlast
    have hblank := hgaps g (mem_of_getLast? hg)
    rw [hlast, List.isEmpty_iff.mp hempty] at hblank
    exact absurd hblank (by decide)
  | succ k ih =>
    rw [replicate_succ', ← append_assoc, rdropWhile_concat_pos _ _ _ (by rfl), ih]

lemma gapsFrom_replicate (run k : ℕ) (lines : List (List Char)) :
    gapsFrom run (replicate k [] ++ lines) = gapsFrom (run + k) lines := by
  induction k generalizing run with
  | zero => rfl
  | succ k ih =>
    rw [replicate_succ, cons_append, gapsFrom, if_pos (by decide), ih, Nat.add_right_comm]
    rfl

lemma gapsFrom_concat_nil (run : ℕ) (lines : List (List Char)) :
    gapsFrom run (lines ++ [[]]) = gapsFrom run lines := by
  induction lines generalizing run with
  | nil => rfl
  | cons line lines ih => rw [cons_append, gapsFrom, gapsFrom, ih, ih]

lemma gapsFrom_layout (hgaps : ∀ g ∈ gaps, isBlankLine g.2 = false) :
    gapsFrom 0 (layout maxEmpty gaps) = gaps.map fun g => (min g.1 maxEmpty, g.2) := by
  induction gaps with
  | nil => rfl
  | cons g gaps ih =>
    obtain ⟨hg, hgaps⟩ := forall_mem_cons.mp hgaps
    rw [layout, flatMap_cons, ← layout, append_assoc, gapsFrom_replicate, singleton_append,
      gapsFrom, if_neg (by rw [hg]; decide), ih hgaps, map_cons, Nat.zero_add]

lemma length_le_of_infix_layout (hgaps : ∀ g ∈ gaps, isBlankLine g.2 = false)
    {run : List (List Char)} (hrun : run <:+: layout maxEmpty gaps)
    (hblank : ∀ line ∈ run, isBlankLine line = true) : run.length ≤ maxEmpty := by
  induction gaps with
  | nil => simp [infix_nil.mp hrun]
  | cons g gaps ih =>
    obtain ⟨hg, hgaps⟩ := forall_mem_cons.mp hgaps
    -- the line itself is not of the run, which stands in front of it or behind it
    have hmem : g.2 ∉ run := fun h => absurd (hblank _ h) (by rw [hg]; decide)
    rw [layout, flatMap_cons, ← layout, append_assoc, singleton_append] at hrun
    rcases infix_append_cons hmem hrun with h | h
    · have hlength := h.length_le
      rw [length_replicate] at hlength
      exact hlength.trans (min_le_right _ _)
    · exact ih hgaps h

/-! ## The text -/

/-- The text of lines that a line feed each ends. -/
def feedLines (lines : List (List Char)) : List Char := lines.flatMap (· ++ ['\n'])

lemma lines_feedLines (h : ∀ line ∈ lines, '\n' ∉ line) :
    Go.lines (feedLines lines) = lines ++ [[]] := by
  induction lines with
  | nil => rfl
  | cons line lines ih =>
    obtain ⟨hline, h⟩ := forall_mem_cons.mp h
    rw [feedLines, flatMap_cons, ← feedLines, append_assoc, singleton_append,
      Go.lines_append_cons, Go.lines_of_notMem hline, ih h]
    rfl

lemma intercalate_feed (line : List Char) (lines : List (List Char)) :
    ['\n'].intercalate (line :: lines) ++ ['\n'] = feedLines (line :: lines) := by
  induction lines generalizing line with
  | nil => simp [feedLines]
  | cons line' lines ih =>
    rw [intercalate_cons_cons, append_assoc, append_assoc, ih]
    simp [feedLines]

lemma collapseEmptyLines_eq (s : List Char) (maxEmpty : ℕ) :
    collapseEmptyLines s maxEmpty =
      feedLines (layout maxEmpty (gapsFrom 0 (Go.lines (Go.lineFeeds s)))) := by
  obtain ⟨k, hk⟩ := collapseRuns_eq maxEmpty 0 (Go.lines (Go.lineFeeds s))
  rw [Nat.zero_min, replicate_zero, nil_append] at hk
  have hout : (collapseRuns maxEmpty 0 ((Go.lineFeeds s).splitOn '\n')).rdropWhile List.isEmpty =
      layout maxEmpty (gapsFrom 0 (Go.lines (Go.lineFeeds s))) := by
    rw [← Go.lines, hk, layout_rdropWhile fun g hg => (mem_gapsFrom hg).2]
  rw [collapseEmptyLines, hout]
  cases layout maxEmpty (gapsFrom 0 (Go.lines (Go.lineFeeds s))) with
  | nil => rfl
  | cons line lines => exact intercalate_feed line lines

lemma mem_layout {line : List Char} (h : line ∈ layout maxEmpty (gapsFrom 0 lines)) :
    line = [] ∨ line ∈ lines := by
  obtain ⟨g, hg, hline⟩ := mem_flatMap.mp h
  rcases mem_append.mp hline with hline | hline
  · exact .inl (eq_of_mem_replicate hline)
  · exact .inr (mem_singleton.mp hline ▸ (mem_gapsFrom hg).1)

lemma layout_layout (gaps : List (ℕ × List Char)) :
    layout maxEmpty (gaps.map fun g => (min g.1 maxEmpty, g.2)) = layout maxEmpty gaps := by
  simp [layout, flatMap_map]

/-- For every text and every limit: the non-blank lines stay as they are, each behind as many blank
lines as before, up to the limit, and nothing is left to do for a second call. -/
theorem collapseEmptyLines_correct (s : List Char) (maxEmpty : ℕ) :
    CollapsedLines maxEmpty (Go.lines (Go.lineFeeds s))
        (textLines (collapseEmptyLines s maxEmpty)) ∧
      collapseEmptyLines (collapseEmptyLines s maxEmpty) maxEmpty =
        collapseEmptyLines s maxEmpty := by
  set gaps := gapsFrom 0 (Go.lines (Go.lineFeeds s))
  have hgaps : ∀ g ∈ gaps, isBlankLine g.2 = false := fun g hg => (mem_gapsFrom hg).2
  have hmem : ∀ line ∈ layout maxEmpty gaps, '\n' ∉ line ∧ '\r' ∉ line := by
    intro line hline
    rcases mem_layout hline with rfl | hline
    · exact ⟨not_mem_nil, not_mem_nil⟩
    · exact ⟨Go.notMem_of_mem_lines hline, fun h =>
        Go.carriageReturn_notMem_lineFeeds s (Go.mem_of_mem_lines hline h)⟩
  have hlines := lines_feedLines fun line hline => (hmem line hline).1
  have htext : textLines (collapseEmptyLines s maxEmpty) = layout maxEmpty gaps := by
    rw [textLines, collapseEmptyLines_eq, hlines, if_pos (by simp), dropLast_concat]
  rw [htext]
  refine ⟨⟨?_, ?_, gapsFrom_layout hgaps, ?_⟩, ?_⟩
  · rw [← map_gapsFrom 0, ← map_gapsFrom 0, gapsFrom_layout hgaps, map_map]
    rfl
  · exact fun run hrun hblank => length_le_of_infix_layout hgaps hrun hblank
  · intro line hline
    rw [getLast?_layout, Option.mem_def, Option.map_eq_some_iff] at hline
    obtain ⟨g, hg, rfl⟩ := hline
    exact hgaps g (mem_of_getLast? hg)
  · -- the text has no carriage return, and its lines are those of the layout
    have hfeeds : Go.lineFeeds (feedLines (layout maxEmpty gaps)) =
        feedLines (layout maxEmpty gaps) := by
      refine Go.lineFeeds_eq_self fun h => ?_
      obtain ⟨line, hline, h⟩ := mem_flatMap.mp h
      rcases mem_append.mp h with h | h
      · exact (hmem line hline).2 h
      · exact absurd h (by decide)
    rw [collapseEmptyLines_eq, collapseEmptyLines_eq s, hfeeds, hlines, gapsFrom_concat_nil,
      gapsFrom_layout hgaps, layout_layout]

end KubeWaf.Seclang
