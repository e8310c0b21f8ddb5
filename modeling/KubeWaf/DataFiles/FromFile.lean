import KubeWaf.Lib.Fragments
import KubeWaf.Lib.Lines
import Mathlib

/-!
# References to data files in SecLang

`ScanPmFromFileBasenames` and `DropSecLangLinesWithBasenames` of
`internal/dataplane/config/phrasefiles.go`. `internal/probeassemble/scan.go` holds a copy of both
and of the expression behind them. The scan goes over the lines of each directive and skips
comments; the drop looks at the whole text of a directive, in which the white space of the
expression also spans line feeds. `mem_referenced_of_mem_lines` is why the drop still removes whatever
the scan reports.
-/

namespace KubeWaf.DataFiles

open Lib List

variable {directives basenames : List (List Char)} {base text tok group line : List Char} {c : Char}

/-- `\s` -/
def isWhite (c : Char) : Bool :=
  c == ' ' || c == '\t' || c == '\n' || c == Char.ofNat 12 || c == '\r'

/-- `["']` -/
def isQuote (c : Char) : Bool := c == '"' || c == '\''

/-- `[^\s]` and `[^"']` -/
def notWhite (c : Char) : Bool := !isWhite c

def unquoted (c : Char) : Bool := !isQuote c

/-- The operators of `fromFileRe`, in lower case: the expression ignores the case. -/
def fromFileOperators : List (List Char) :=
  ["pmfromfile".toList, "pmf".toList, "ipmatchfromfile".toList, "ipmatchf".toList]

/-- The text up to the next white space is one of the operators. -/
def isFromFileOperator (op : List Char) : Bool := op.map Char.toLower ∈ fromFileOperators

/-- The text behind an operator and the white space after it. -/
def filesText (s : List Char) : List Char := (s.dropWhile notWhite).dropWhile isWhite

/-- The group of `fromFileRe`: it is greedy, so it is the text up to the next quote, without the
white space ahead of that quote. -/
def filesGroup (s : List Char) : List Char :=
  ((filesText s).takeWhile unquoted).rdropWhile isWhite

/-- `fromFileRe`:
`(?i)@(?:pmFromFile|pmf|ipMatchFromFile|ipMatchF)\s+([^\s"']+(?:\s+[^\s"']+)*)`.
The operator ends at the first white space. -/
def fromFileRe : Matcher Char (List Char)
  | [] => none
  | c :: s =>
    if c = '@' ∧ isFromFileOperator (s.takeWhile notWhite) = true ∧ filesGroup s ≠ [] then
      some (filesGroup s, (filesText s).drop (filesGroup s).length)
    else none

/-- `path.Base(strings.Trim(tok, "\"'"))` -/
def basename (tok : List Char) : List Char := Go.pathBase (Go.trimFunc isQuote tok)

/-- The basenames of the tokens behind the operators of a text, in their order. -/
def referenced (text : List Char) : List (List Char) :=
  (findAll fromFileRe text).flatMap fun group => (Go.fields group).map basename

def lineReferencesFromFileBasename (line : List Char) (basenames : List (List Char)) : Bool :=
  (referenced line).any (· ∈ basenames)

def dropSecLangLinesWithBasenames (directives basenames : List (List Char)) :
    List (List Char) :=
  if basenames = [] then directives
  else directives.filter fun line => !lineReferencesFromFileBasename line basenames

/-- A line that the scan looks at: not empty and not a comment. -/
def isSecLangLine (line : List Char) : Bool :=
  let trim := Go.trimFunc Go.isSpace line
  trim ≠ [] && !"#".toList.isPrefixOf trim

/-- The lines of a text that are not empty and not comments. -/
def secLangLines (text : List Char) : List (List Char) := (Go.lines text).filter isSecLangLine

/-- The basenames that the scan finds, in the order of the directives. -/
def scanned (directives : List (List Char)) : List (List Char) :=
  directives.flatMap fun raw => (secLangLines raw).flatMap fun line =>
    (referenced line).filter fun base => base ≠ [] ∧ base ≠ ['.']

def scanPmFromFileBasenames (directives : List (List Char)) : List (List Char) :=
  (scanned directives).dedup.insertionSort (· ≤ ·)

lemma mem_scanPmFromFileBasenames :
    base ∈ scanPmFromFileBasenames directives ↔
      ∃ raw ∈ directives, ∃ line ∈ secLangLines raw,
        base ∈ referenced line ∧ base ≠ [] ∧ base ≠ ['.'] := by
  rw [scanPmFromFileBasenames, mem_insertionSort, mem_dedup, scanned]
  simp

/-! ## What the expression finds -/

lemma isSpace_of_isWhite (h : isWhite c = true) : Go.isSpace c = true := by
  simp only [isWhite, Bool.or_eq_true, beq_iff_eq] at h
  rcases h with (((rfl | rfl) | rfl) | rfl) | rfl <;> decide

lemma isWhite_quote (h : isWhite c = true) : isQuote c = false := by
  simp only [isWhite, Bool.or_eq_true, beq_iff_eq] at h
  rcases h with (((rfl | rfl) | rfl) | rfl) | rfl <;> decide

lemma unquoted_of_isSpace (h : Go.isSpace c = true) : unquoted c = true := by
  rw [unquoted, isQuote]
  by_contra hquote
  simp only [Bool.not_eq_true, Bool.not_eq_false', Bool.or_eq_true, beq_iff_eq] at hquote
  rcases hquote with rfl | rfl <;> revert h <;> decide

lemma char_of_isFromFileOperator {op : List Char} (h : isFromFileOperator op = true) :
    ∀ c ∈ op, isWhite c = false ∧ isQuote c = false ∧ c ≠ '@' := by
  have hall : (fromFileOperators.all fun name => name.all fun d => 'a' ≤ d ∧ d ≤ 'z') = true := by
    decide
  intro c hc
  have hlower : 'a' ≤ c.toLower ∧ c.toLower ≤ 'z' :=
    of_decide_eq_true (all_eq_true.mp (all_eq_true.mp hall _ (of_decide_eq_true h)) _
      (mem_map_of_mem hc))
  have hnot : ∀ d ∈ [' ', '\t', '\n', Char.ofNat 12, '\r', '"', '\'', '@'], c ≠ d := by
    intro d hd heq
    subst heq
    simp only [mem_cons, not_mem_nil, or_false] at hd
    rcases hd with rfl | rfl | rfl | rfl | rfl | rfl | rfl | rfl <;> revert hlower <;> decide
  simp only [mem_cons, not_mem_nil, or_false, forall_eq_or_imp, forall_eq] at hnot
  simp only [isWhite, isQuote, Bool.or_eq_false_iff, beq_eq_false_iff_ne]
  tauto

lemma fields_rdropWhile (s : List Char) : Go.fields (s.rdropWhile isWhite) = Go.fields s := by
  have hsplit : s.rdropWhile isWhite ++ s.rtakeWhile isWhite = s :=
    rdropWhile_append_rtakeWhile
  have hwhite : ∀ c ∈ s.rtakeWhile isWhite, Go.isSpace c = true := fun c hc =>
    isSpace_of_isWhite (mem_rtakeWhile_imp hc)
  rw [← Go.fields_append_right hwhite, hsplit]

lemma fields_takeWhile_dropWhile (s : List Char) :
    Go.fields ((s.dropWhile isWhite).takeWhile unquoted) = Go.fields (s.takeWhile unquoted) := by
  have hwhite : ∀ c ∈ s.takeWhile isWhite, isWhite c = true := fun c hc =>
    mem_takeWhile_imp hc
  have hunquoted : ∀ c ∈ s.takeWhile isWhite, unquoted c = true := by
    intro c hc
    rw [unquoted, isWhite_quote (hwhite c hc)]
    rfl
  have hsplit : s.takeWhile unquoted
      = s.takeWhile isWhite ++ (s.dropWhile isWhite).takeWhile unquoted := by
    rw [← takeWhile_append_of_pos hunquoted, takeWhile_append_dropWhile]
  rw [hsplit, Go.fields_append_left fun c hc => isSpace_of_isWhite (hwhite c hc)]

/-- An operator stands in the text, with white space behind it, and `tok` is a field of what
follows up to the next quote. -/
def RefersTo (text tok : List Char) : Prop :=
  ∃ pre op w files, text = pre ++ '@' :: (op ++ (w ++ files)) ∧ isFromFileOperator op = true
    ∧ w ≠ [] ∧ (∀ c ∈ w, isWhite c = true)
    ∧ tok ∈ Go.fields (files.takeWhile unquoted)

lemma refersTo_of_bounded {pre post : List Char} (h : RefersTo text tok)
    (hpost : post = [] ∨ ∃ c q, post = c :: q ∧ Go.isSpace c = true) :
    RefersTo (pre ++ (text ++ post)) tok := by
  obtain ⟨pre', op, w, files, rfl, hop, hne, hw, htok⟩ := h
  refine ⟨pre ++ pre', op, w, files ++ post, by simp, hop, hne, hw, ?_⟩
  by_cases hall : ∀ c ∈ files, unquoted c = true
  · -- no quote follows in the line: the files go on behind it
    rw [takeWhile_append_of_pos hall]
    rw [takeWhile_eq_self_iff.mpr hall] at htok
    have hbound : post.takeWhile unquoted = []
        ∨ ∃ c q, post.takeWhile unquoted = c :: q ∧ Go.isSpace c = true := by
      rcases hpost with rfl | ⟨c, q, rfl, hc⟩
      · exact Or.inl rfl
      · exact Or.inr ⟨c, _, takeWhile_cons_of_pos (unquoted_of_isSpace hc), hc⟩
    exact Go.mem_fields_of_bounded htok (Or.inl rfl) hbound
  · have hsame : (files ++ post).takeWhile unquoted
        = files.takeWhile unquoted := by
      rw [takeWhile_append]
      rw [if_neg]
      intro hlength
      exact hall (takeWhile_eq_self_iff.mp
        (List.takeWhile_prefix _ |>.eq_of_length hlength))
    rw [hsame]
    exact htok

lemma refersTo_append_left (pre : List Char) (h : RefersTo text tok) :
    RefersTo (pre ++ text) tok := by
  have h' : RefersTo (pre ++ (text ++ [])) tok := refersTo_of_bounded h (Or.inl rfl)
  rwa [append_nil] at h'

section
variable {op w files : List Char} (hop : isFromFileOperator op = true) (hne : w ≠ [])
  (hw : ∀ c ∈ w, isWhite c = true)
include hop hne hw

lemma span_operator :
    (op ++ (w ++ files)).takeWhile notWhite = op
      ∧ (op ++ (w ++ files)).dropWhile notWhite = w ++ files := by
  have hop' : ∀ c ∈ op, notWhite c = true := by
    intro c hc
    rw [notWhite, (char_of_isFromFileOperator hop c hc).1]
    rfl
  obtain ⟨d, w', rfl⟩ := exists_cons_of_ne_nil hne
  have hd : ¬ notWhite d = true := by
    rw [notWhite, hw d mem_cons_self]
    decide
  rw [takeWhile_append_of_pos hop', dropWhile_append_of_pos hop', cons_append,
    takeWhile_cons_of_neg hd, dropWhile_cons_of_neg hd, append_nil]
  exact ⟨rfl, rfl⟩

lemma fromFileRe_isSome (htok : tok ∈ Go.fields (files.takeWhile unquoted)) :
    ∃ group rest, fromFileRe ('@' :: (op ++ (w ++ files))) = some (group, rest)
      ∧ Go.fields group = Go.fields (files.takeWhile unquoted) := by
  obtain ⟨htake, hdrop⟩ : (op ++ (w ++ files)).takeWhile notWhite = op
      ∧ (op ++ (w ++ files)).dropWhile notWhite = w ++ files := span_operator hop hne hw
  have hfiles : filesText (op ++ (w ++ files)) = files.dropWhile isWhite := by
    rw [filesText, hdrop, dropWhile_append_of_pos hw]
  have hfields : Go.fields (filesGroup (op ++ (w ++ files)))
      = Go.fields (files.takeWhile unquoted) := by
    rw [filesGroup, hfiles, fields_rdropWhile, fields_takeWhile_dropWhile]
  refine ⟨_, _, if_pos ⟨rfl, ?_, ?_⟩, hfields⟩
  · rw [htake]
    exact hop
  · intro hnil
    rw [← hfields, hnil] at htok
    exact absurd htok not_mem_nil

end

lemma fromFileRe_eq_some {s rest : List Char} (h : fromFileRe s = some (group, rest)) :
    ∃ op w files v, s = '@' :: (op ++ (w ++ files)) ∧ isFromFileOperator op = true
      ∧ (∀ c ∈ w, isWhite c = true) ∧ (∀ c ∈ v, isWhite c = true)
      ∧ files.takeWhile unquoted = group ++ v ∧ rest = v ++ files.dropWhile unquoted
      ∧ w ≠ [] := by
  cases s with
  | nil => exact absurd h (Option.some_ne_none _).symm
  | cons c s =>
    rw [fromFileRe] at h
    by_cases hc : c = '@' ∧ isFromFileOperator (s.takeWhile notWhite) = true ∧ filesGroup s ≠ []
    · rw [if_pos hc, Option.some.injEq, Prod.mk.injEq] at h
      obtain ⟨rfl, hop, hne⟩ := hc
      obtain ⟨rfl, rfl⟩ := h
      have hfiles : s.dropWhile notWhite = (s.dropWhile notWhite).takeWhile isWhite ++ filesText s :=
        takeWhile_append_dropWhile.symm
      have hgroup : (filesText s).takeWhile unquoted
          = filesGroup s ++ ((filesText s).takeWhile unquoted).rtakeWhile isWhite :=
        rdropWhile_append_rtakeWhile.symm
      refine ⟨s.takeWhile notWhite, (s.dropWhile notWhite).takeWhile isWhite, filesText s,
        ((filesText s).takeWhile unquoted).rtakeWhile isWhite, ?_, hop,
        fun d hd => mem_takeWhile_imp hd, fun d hd => mem_rtakeWhile_imp hd, hgroup, ?_,
        ?_⟩
      · rw [← hfiles, takeWhile_append_dropWhile]
      · -- the group is the start of the files
        have hsplit : filesText s
            = filesGroup s ++ (((filesText s).takeWhile unquoted).rtakeWhile isWhite
              ++ (filesText s).dropWhile unquoted) := by
          rw [← append_assoc, ← hgroup, takeWhile_append_dropWhile]
        nth_rewrite 1 [hsplit]
        exact drop_left
      · -- what follows the operator is not empty and starts with white space
        cases hdrop : s.dropWhile notWhite with
        | nil => exact absurd (by rw [filesGroup, filesText, hdrop]; rfl) hne
        | cons d t =>
          have hd : isWhite d = true := by
            have hhead : notWhite d = false := head_dropWhile_false s d (by rw [hdrop]; rfl)
            rw [notWhite] at hhead
            simpa using hhead
          rw [takeWhile_cons_of_pos hd]
          exact cons_ne_nil _ _
    · rw [if_neg hc] at h
      exact absurd h (Option.some_ne_none _).symm

lemma fromFileRe_rest {s rest : List Char} (h : fromFileRe (c :: s) = some (group, rest)) :
    ∃ pre, s = pre ++ rest := by
  obtain ⟨op, w, files, v, hs, _, _, _, htake, hrest, _⟩ := fromFileRe_eq_some h
  refine ⟨op ++ (w ++ group), ?_⟩
  rw [List.cons.injEq] at hs
  calc s = op ++ (w ++ (files.takeWhile unquoted ++ files.dropWhile unquoted)) := by
        rw [takeWhile_append_dropWhile]
        exact hs.2
    _ = (op ++ (w ++ group)) ++ rest := by
        rw [htake, hrest]
        simp

lemma fields_of_match {v files : List Char} (hv : ∀ c ∈ v, isWhite c = true)
    (htake : files.takeWhile unquoted = group ++ v) :
    Go.fields group = Go.fields (files.takeWhile unquoted) := by
  rw [htake, Go.fields_append_right fun c hc => isSpace_of_isWhite (hv c hc)]

lemma refersTo_of_mem_findAll :
    ∀ text : List Char, tok ∈ (findAll fromFileRe text).flatMap Go.fields → RefersTo text tok
  | [], h => absurd h not_mem_nil
  | c :: s, h => by
    cases hm : fromFileRe (c :: s) with
    | none =>
      rw [findAll_cons_of_none hm] at h
      exact refersTo_append_left [c] (refersTo_of_mem_findAll s h)
    | some r =>
      obtain ⟨group, rest⟩ := r
      obtain ⟨pre, hpre⟩ := fromFileRe_rest hm
      rw [findAll_cons_of_some hm hpre, flatMap_cons, mem_append] at h
      rcases h with h | h
      · obtain ⟨op, w, files, v, hs, hop, hw, hv, htake, _, hne⟩ := fromFileRe_eq_some hm
        refine ⟨[], op, w, files, hs, hop, hne, hw, ?_⟩
        rwa [← fields_of_match hv htake]
      · have hlt : rest.length < (c :: s).length := by
          rw [hpre, length_cons, length_append]
          omega
        have href := refersTo_append_left (c :: pre) (refersTo_of_mem_findAll rest h)
        rwa [cons_append, ← hpre] at href
  termination_by text => text.length

lemma takeWhile_unquoted_operator {op w files : List Char} (hop : isFromFileOperator op = true)
    (hw : ∀ c ∈ w, isWhite c = true) :
    ('@' :: (op ++ (w ++ files))).takeWhile unquoted
      = '@' :: (op ++ (w ++ files.takeWhile unquoted)) := by
  have hop' : ∀ c ∈ op, unquoted c = true := by
    intro c hc
    rw [unquoted, (char_of_isFromFileOperator hop c hc).2.1]
    rfl
  have hw' : ∀ c ∈ w, unquoted c = true := by
    intro c hc
    rw [unquoted, isWhite_quote (hw c hc)]
    rfl
  rw [takeWhile_cons_of_pos (by decide), takeWhile_append_of_pos hop',
    takeWhile_append_of_pos hw']

lemma mem_fields_or_refersTo {op w files pre op' w' files' : List Char}
    (hop : isFromFileOperator op = true) (hw : ∀ c ∈ w, isWhite c = true)
    (hop' : isFromFileOperator op' = true) (hne' : w' ≠ []) (hw' : ∀ c ∈ w', isWhite c = true)
    (htok : tok ∈ Go.fields (files'.takeWhile unquoted))
    (h : op ++ (w ++ files) = pre ++ '@' :: (op' ++ (w' ++ files'))) :
    tok ∈ Go.fields (files.takeWhile unquoted) ∨ RefersTo (files.dropWhile unquoted) tok := by
  have hat : '@' ∉ op ++ w := by
    rw [mem_append, not_or]
    exact ⟨fun hmem => (char_of_isFromFileOperator hop _ hmem).2.2 rfl,
      fun hmem => absurd (hw _ hmem) (by decide)⟩
  rw [← append_assoc] at h
  obtain ⟨x, _, rfl⟩ := exists_of_append_cons_eq hat h
  by_cases hx : ∀ c ∈ x, unquoted c = true
  · left
    obtain ⟨w₀, c, rfl⟩ := (eq_nil_or_concat w').resolve_left hne'
    have hspace : Go.isSpace c = true := isSpace_of_isWhite (hw' c (by simp))
    rw [takeWhile_append_of_pos hx, takeWhile_unquoted_operator hop' hw']
    have hfield := Go.mem_fields_of_bounded htok
      (Or.inr ⟨x ++ '@' :: (op' ++ w₀), c, rfl, hspace⟩) (Or.inl rfl)
    simpa only [concat_eq_append, append_assoc, cons_append, nil_append, append_nil] using hfield
  · right
    have hquote : ¬ (x.dropWhile unquoted).isEmpty = true := by
      rw [List.isEmpty_iff, dropWhile_eq_nil_iff]
      exact hx
    rw [dropWhile_append, if_neg hquote]
    exact ⟨_, op', w', files', rfl, hop', hne', hw', htok⟩

lemma mem_findAll_of_refersTo :
    ∀ text : List Char, RefersTo text tok → tok ∈ (findAll fromFileRe text).flatMap Go.fields
  | [], ⟨pre, op, w, files, hs, _⟩ => by
    exact absurd hs.symm (by simp)
  | c :: s, href => by
    obtain ⟨pre, op, w, files, hs, hop, hne, hw, htok⟩ := href
    cases hm : fromFileRe (c :: s) with
    | none =>
      rw [findAll_cons_of_none hm]
      cases pre with
      | nil =>
        -- the expression matches where the operator stands
        obtain ⟨group, rest, hmatch, _⟩ := fromFileRe_isSome hop hne hw htok
        rw [nil_append] at hs
        rw [← hs, hm] at hmatch
        exact absurd hmatch (Option.some_ne_none _).symm
      | cons d pre =>
        rw [cons_append, List.cons.injEq] at hs
        exact mem_findAll_of_refersTo s ⟨pre, op, w, files, hs.2, hop, hne, hw, htok⟩
    | some r =>
      obtain ⟨group, rest⟩ := r
      obtain ⟨pre', hpre'⟩ := fromFileRe_rest hm
      rw [findAll_cons_of_some hm hpre', flatMap_cons, mem_append]
      cases pre with
      | nil =>
        obtain ⟨group', rest', hmatch, hfields⟩ := fromFileRe_isSome hop hne hw htok
        rw [nil_append] at hs
        rw [← hs, hm, Option.some.injEq, Prod.mk.injEq] at hmatch
        left
        rw [hmatch.1, hfields]
        exact htok
      | cons d pre =>
        obtain ⟨op₀, w₀, files₀, v, hs₀, hop₀, hw₀, hv, htake, hrest, _⟩ := fromFileRe_eq_some hm
        rw [hs₀, cons_append, List.cons.injEq] at hs
        have hlt : rest.length < (c :: s).length := by
          rw [hpre', length_cons, length_append]
          omega
        rcases mem_fields_or_refersTo hop₀ hw₀ hop hne hw htok hs.2 with hmem | href
        · left
          rwa [fields_of_match hv htake]
        · right
          refine mem_findAll_of_refersTo rest ?_
          rw [hrest]
          exact refersTo_append_left v href
  termination_by text => text.length

lemma mem_referenced_iff :
    base ∈ referenced text ↔ ∃ tok, RefersTo text tok ∧ basename tok = base := by
  have hmap : referenced text
      = ((findAll fromFileRe text).flatMap Go.fields).map basename := by
    rw [referenced, map_flatMap]
  rw [hmap, mem_map]
  constructor
  · intro ⟨tok, htok, hbase⟩
    exact ⟨tok, refersTo_of_mem_findAll text htok, hbase⟩
  · intro ⟨tok, htok, hbase⟩
    exact ⟨tok, mem_findAll_of_refersTo text htok, hbase⟩

lemma referenced_eq_nil (h : '@' ∉ text) : referenced text = [] := by
  refine eq_nil_iff_forall_not_mem.mpr fun base hbase => ?_
  obtain ⟨tok, ⟨pre, op, w, files, rfl, _⟩, _⟩ := mem_referenced_iff.mp hbase
  exact h (mem_append_right pre mem_cons_self)

lemma mem_referenced_of_mem_lines (hline : line ∈ Go.lines text) (h : base ∈ referenced line) :
    base ∈ referenced text := by
  obtain ⟨tok, htok, hbase⟩ := mem_referenced_iff.mp h
  obtain ⟨pre, post, rfl, _, hpost⟩ := Go.exists_of_mem_lines hline
  have hspace : post = [] ∨ ∃ c q, post = c :: q ∧ Go.isSpace c = true :=
    hpost.imp_right fun ⟨q, hq⟩ => ⟨'\n', q, hq, by decide⟩
  exact mem_referenced_iff.mpr ⟨tok, refersTo_of_bounded htok hspace, hbase⟩

lemma mem_referenced_of_trim (h : base ∈ referenced (Go.trim text)) : base ∈ referenced text := by
  obtain ⟨tok, htok, hbase⟩ := mem_referenced_iff.mp h
  obtain ⟨w, w', htext, _, hw'⟩ := Go.exists_eq_trim text
  have hspace : w' = [] ∨ ∃ c q, w' = c :: q ∧ Go.isSpace c = true := by
    cases w' with
    | nil => exact Or.inl rfl
    | cons c q => exact Or.inr ⟨c, q, rfl, hw' c mem_cons_self⟩
  rw [htext]
  exact mem_referenced_iff.mpr ⟨tok, refersTo_of_bounded htok hspace, hbase⟩

/-! ## Scan and drop -/

lemma scan_eq_nil (h : ∀ raw ∈ directives, referenced raw = []) :
    scanPmFromFileBasenames directives = [] := by
  refine eq_nil_iff_forall_not_mem.mpr fun base hbase => ?_
  obtain ⟨raw, hraw, line, hline, href, _⟩ := mem_scanPmFromFileBasenames.mp hbase
  have hmem := mem_referenced_of_mem_lines (mem_of_mem_filter hline) href
  rw [h raw hraw] at hmem
  exact absurd hmem not_mem_nil

lemma dropSecLangLinesWithBasenames_eq_filter (directives basenames : List (List Char)) :
    dropSecLangLinesWithBasenames directives basenames
      = directives.filter fun line => !lineReferencesFromFileBasename line basenames := by
  rw [dropSecLangLinesWithBasenames]
  by_cases hnil : basenames = []
  · have hall : ∀ line ∈ directives, (!lineReferencesFromFileBasename line basenames) = true := by
      intro line _
      rw [hnil, lineReferencesFromFileBasename]
      simp
    rw [if_pos hnil, filter_eq_self.mpr hall]
  · rw [if_neg hnil]

lemma lineReferencesFromFileBasename_iff :
    lineReferencesFromFileBasename line basenames = true
      ↔ ∃ base ∈ basenames, base ∈ referenced line := by
  rw [lineReferencesFromFileBasename, any_eq_true]
  simp only [decide_eq_true_eq]
  exact ⟨fun ⟨base, href, hmem⟩ => ⟨base, hmem, href⟩, fun ⟨base, hmem, href⟩ => ⟨base, href, hmem⟩⟩

lemma mem_dropSecLangLinesWithBasenames {raw : List Char} :
    raw ∈ dropSecLangLinesWithBasenames directives basenames
      ↔ raw ∈ directives ∧ ∀ base ∈ basenames, base ∉ referenced raw := by
  rw [dropSecLangLinesWithBasenames_eq_filter, mem_filter, Bool.not_eq_true',
    ← Bool.not_eq_true, lineReferencesFromFileBasename_iff]
  simp

/-! ## File names -/

/-- A directive that references a file. -/
def reference (base : List Char) : List Char := "@pmFromFile ".toList ++ base

/-- A file name without white space, quotes or directories, as the scan reports them. -/
structure IsFileName (base : List Char) : Prop where
  ne_nil : base ≠ []
  ne_dot : base ≠ ['.']
  space : ∀ c ∈ base, Go.isSpace c = false
  quote : ∀ c ∈ base, isQuote c = false
  pathBase : Go.pathBase base = base

lemma basename_of_unquoted (h : ∀ c ∈ tok, isQuote c = false) :
    basename tok = Go.pathBase tok := by
  have htrim : Go.trimFunc isQuote tok = tok := by
    have hdrop : tok.dropWhile isQuote = tok := by
      rw [dropWhile_eq_self_iff]
      intro hlength hquote
      rw [h _ (getElem_mem hlength)] at hquote
      cases hquote
    rw [Go.trimFunc, hdrop, rdropWhile_eq_self_iff]
    intro hne hquote
    rw [h _ (getLast_mem hne)] at hquote
    cases hquote
  rw [basename, htrim]

lemma isFileName_of_mem_scan (h : base ∈ scanPmFromFileBasenames directives) :
    IsFileName base := by
  obtain ⟨raw, _, line, _, href, hne, hdot⟩ := mem_scanPmFromFileBasenames.mp h
  obtain ⟨tok, ⟨_, _, _, files, _, _, _, _, htok⟩, hbase⟩ := mem_referenced_iff.mp href
  obtain ⟨_, hchars⟩ := Go.of_mem_fields htok
  have hquote : ∀ c ∈ tok, isQuote c = false := by
    intro c hc
    have hunquoted : unquoted c = true := mem_takeWhile_imp (hchars c hc).2
    rwa [unquoted, Bool.not_eq_true'] at hunquoted
  rw [basename_of_unquoted hquote] at hbase
  subst hbase
  have hmem : ∀ c ∈ Go.pathBase tok, c = '/' ∨ c ∈ tok := by
    intro c hc
    rcases Go.pathBase_cases tok with hcase | hcase | ⟨_, _, hsub⟩
    · exact absurd hcase hdot
    · rw [hcase] at hc
      exact Or.inl (mem_singleton.mp hc)
    · exact Or.inr (hsub c hc)
  refine ⟨hne, hdot, fun c hc => ?_, fun c hc => ?_, Go.pathBase_pathBase tok⟩
  · rcases hmem c hc with rfl | hc
    · decide
    · exact (hchars c hc).1
  · rcases hmem c hc with rfl | hc
    · decide
    · exact hquote c hc

lemma findAll_reference (h : IsFileName base) : findAll fromFileRe (reference base) = [base] := by
  have hwhite : ∀ c ∈ base, isWhite c = false := by
    intro c hc
    by_contra hw
    have hspace := isSpace_of_isWhite (Bool.eq_true_of_not_eq_false hw)
    rw [h.space c hc] at hspace
    cases hspace
  have hop : isFromFileOperator "pmFromFile".toList = true := by decide
  have hspan : ∀ c ∈ [' '], isWhite c = true := forall_mem_singleton.mpr rfl
  obtain ⟨htake, hdrop⟩ : ("pmFromFile".toList ++ ([' '] ++ base)).takeWhile notWhite
        = "pmFromFile".toList
      ∧ ("pmFromFile".toList ++ ([' '] ++ base)).dropWhile notWhite = [' '] ++ base :=
    span_operator hop (cons_ne_nil _ _) hspan
  have hfiles : filesText ("pmFromFile".toList ++ ([' '] ++ base)) = base := by
    have hstop : base.dropWhile isWhite = base := by
      rw [dropWhile_eq_self_iff]
      intro hlength hw
      rw [hwhite _ (getElem_mem hlength)] at hw
      cases hw
    rw [filesText, hdrop, dropWhile_append_of_pos hspan, hstop]
  have hgroup : filesGroup ("pmFromFile".toList ++ ([' '] ++ base)) = base := by
    have hunquoted : base.takeWhile unquoted = base := by
      rw [takeWhile_eq_self_iff]
      intro c hc
      rw [unquoted, h.quote c hc]
      rfl
    rw [filesGroup, hfiles, hunquoted, rdropWhile_eq_self_iff]
    intro hne hw
    rw [hwhite _ (getLast_mem hne)] at hw
    cases hw
  have hmatch : fromFileRe ('@' :: ("pmFromFile".toList ++ ([' '] ++ base))) = some (base, []) := by
    rw [fromFileRe, if_pos ⟨rfl, by rw [htake]; exact hop, by rw [hgroup]; exact h.ne_nil⟩,
      hgroup, hfiles, drop_length]
  have htext : reference base = '@' :: ("pmFromFile".toList ++ ([' '] ++ base)) := rfl
  rw [htext, findAll_cons_of_some hmatch (append_nil _).symm, findAll_nil]

lemma isSecLangLine_cons (hspace : Go.isSpace c = false) (hcomment : c ≠ '#') :
    isSecLangLine (c :: line) = true := by
  obtain ⟨w, w', hline, hw, hw'⟩ := Go.exists_eq_trim (c :: line)
  have hnotSpace : ∀ v : List Char, (∀ d ∈ v, Go.isSpace d = true) → c ∉ v := by
    intro v hv hc
    rw [hv c hc] at hspace
    cases hspace
  have hnil : w = [] := by
    cases w with
    | nil => rfl
    | cons d w =>
      have hd : c = d := (List.cons.inj hline).1
      exact absurd (hd ▸ mem_cons_self) (hnotSpace (d :: w) hw)
  rw [hnil, nil_append] at hline
  cases htrim : Go.trim (c :: line) with
  | nil =>
    rw [htrim, nil_append] at hline
    exact absurd (hline ▸ mem_cons_self) (hnotSpace w' hw')
  | cons d rest =>
    rw [htrim] at hline
    have hd : c = d := (List.cons.inj hline).1
    have htrim' : Go.trimFunc Go.isSpace (c :: line) = d :: rest := htrim
    rw [isSecLangLine, htrim', ← hd]
    simp [List.isPrefixOf, hcomment.symm]

lemma scan_reference (h : IsFileName base) :
    scanPmFromFileBasenames [reference base] = [base] := by
  have hlines : secLangLines (reference base) = [reference base] := by
    have hfeed : '\n' ∉ reference base := by
      have hop : '\n' ∉ "@pmFromFile ".toList := by decide
      have hfeedSpace : Go.isSpace '\n' = true := by decide
      intro hmem
      rcases mem_append.mp hmem with hmem | hmem
      · exact hop hmem
      · rw [h.space _ hmem] at hfeedSpace
        cases hfeedSpace
    have hlang : isSecLangLine (reference base) = true := isSecLangLine_cons (by decide) (by decide)
    rw [secLangLines, Go.lines_of_notMem hfeed, filter_cons_of_pos hlang, filter_nil]
  have href : referenced (reference base) = [base] := by
    rw [referenced, findAll_reference h, flatMap_singleton, Go.fields_of_noSpace h.space,
      if_neg h.ne_nil, map_singleton, basename_of_unquoted h.quote, h.pathBase]
  have hscanned : scanned [reference base] = [base] := by
    rw [scanned, flatMap_singleton, hlines, flatMap_singleton, href]
    exact filter_cons_of_pos (by simpa using ⟨h.ne_nil, h.ne_dot⟩)
  rw [scanPmFromFileBasenames, hscanned]
  rfl

lemma scan_of_drop
    (h : base ∈ scanPmFromFileBasenames (dropSecLangLinesWithBasenames directives basenames)) :
    base ∈ scanPmFromFileBasenames directives ∧ base ∉ basenames := by
  obtain ⟨raw, hraw, line, hline, hbase, hne⟩ := mem_scanPmFromFileBasenames.mp h
  obtain ⟨hmem, hkept⟩ := mem_dropSecLangLinesWithBasenames.mp hraw
  refine ⟨mem_scanPmFromFileBasenames.mpr ⟨raw, hmem, line, hline, hbase, hne⟩, fun hdropped => ?_⟩
  exact hkept base hdropped (mem_referenced_of_mem_lines (mem_of_mem_filter hline) hbase)

/-! ## Whether the drop removes what the scan reports -/

/-- An operator somewhere in the text names one of the files. Its names go on over the ends of
lines, up to the next quote, and a comment counts as any other text. -/
def Names (text : List Char) (basenames : List (List Char)) : Prop :=
  ∃ tok, RefersTo text tok ∧ basename tok ∈ basenames

/-- An operator on a line that is no comment names one of the files on that line. -/
def NamesOnLine (text : List Char) (basenames : List (List Char)) : Prop :=
  ∃ line ∈ secLangLines text, ∃ tok, RefersTo line tok ∧ basename tok ∈ basenames
    ∧ basename tok ≠ ['.']

/-- The scan of the text alone reports one of the files. -/
def scanReports (text : List Char) (basenames : List (List Char)) : Bool :=
  (scanPmFromFileBasenames [text]).any (· ∈ basenames)

lemma scanReports_iff : scanReports text basenames = true ↔ NamesOnLine text basenames := by
  rw [scanReports, any_eq_true]
  constructor
  · intro h
    obtain ⟨base, hbase, hmem⟩ := h
    obtain ⟨raw, hraw, line, hline, href, -, hdot⟩ := mem_scanPmFromFileBasenames.mp hbase
    obtain rfl := mem_singleton.mp hraw
    obtain ⟨tok, htok, rfl⟩ := mem_referenced_iff.mp href
    exact ⟨line, hline, tok, htok, of_decide_eq_true hmem, hdot⟩
  · intro h
    obtain ⟨line, hline, tok, htok, hmem, hdot⟩ := h
    refine ⟨basename tok, mem_scanPmFromFileBasenames.mpr ⟨text, mem_cons_self, line, hline,
      mem_referenced_iff.mpr ⟨tok, htok, rfl⟩, ?_, hdot⟩, decide_eq_true hmem⟩
    -- `path.Base` does not return an empty name
    rcases Go.pathBase_cases (Go.trimFunc isQuote tok) with hcase | hcase | hcase
    · exact absurd hcase hdot
    · rw [basename, hcase]
      exact cons_ne_nil _ _
    · exact hcase.1

lemma lineReferences_iff_names :
    lineReferencesFromFileBasename text basenames = true ↔ Names text basenames := by
  rw [lineReferencesFromFileBasename_iff]
  constructor
  · intro h
    obtain ⟨base, hmem, href⟩ := h
    obtain ⟨tok, htok, rfl⟩ := mem_referenced_iff.mp href
    exact ⟨tok, htok, hmem⟩
  · intro h
    obtain ⟨tok, htok, hmem⟩ := h
    exact ⟨basename tok, hmem, mem_referenced_iff.mpr ⟨tok, htok, rfl⟩⟩

lemma NamesOnLine.names (h : NamesOnLine text basenames) : Names text basenames := by
  obtain ⟨line, hline, tok, htok, hmem, -⟩ := h
  have href := mem_referenced_of_mem_lines (mem_of_mem_filter hline)
    (mem_referenced_iff.mpr ⟨tok, htok, rfl⟩)
  obtain ⟨tok', htok', hbase⟩ := mem_referenced_iff.mp href
  exact ⟨tok', htok', hbase ▸ hmem⟩

/-- The drop keeps, in order, the directives of which the scan reports no basename, exactly if each
directive that names one anywhere names one on a line of its own. -/
theorem drop_exact_iff (directives basenames : List (List Char)) :
    dropSecLangLinesWithBasenames directives basenames
        = directives.filter (fun text => !scanReports text basenames)
      ↔ ∀ text ∈ directives, Names text basenames → NamesOnLine text basenames := by
  rw [dropSecLangLinesWithBasenames_eq_filter]
  constructor
  · intro h text htext hnames
    by_contra hline
    have hkept : text ∈ directives.filter fun text => !scanReports text basenames := by
      refine mem_filter.mpr ⟨htext, ?_⟩
      rw [Bool.not_eq_true', ← Bool.not_eq_true, scanReports_iff]
      exact hline
    rw [← h, mem_filter, lineReferences_iff_names.mpr hnames] at hkept
    exact absurd hkept.2 (by decide)
  · intro h
    refine filter_congr fun text htext => ?_
    rw [Bool.not_inj_iff, Bool.eq_iff_iff, lineReferences_iff_names, scanReports_iff]
    exact ⟨h text htext, NamesOnLine.names⟩

/-- The comment ahead of a rule names a file that the rule does not use. -/
def commentedRule : List Char :=
  "# replaces @pmFromFile old.data\nSecRule ARGS \"@rx x\" \"id:1\"".toList

theorem commentedRule_dropped :
    dropSecLangLinesWithBasenames [commentedRule] ["old.data".toList] = []
      ∧ scanPmFromFileBasenames [commentedRule] = [] := by
  decide +kernel

end KubeWaf.DataFiles
