import KubeWaf.Probe.Document

/-!
# Dropping rules without their data files

Under `IgnoreUnknown` the probe and the dataplane drop what references a file that is missing,
with copies of one function. The dataplane applies it to the texts of the objects, the probe to
the lines of its document. A text is then dropped as a whole, and a line alone: the two leave the
same lines where each line of a text references the files that the text references.
-/

namespace KubeWaf.Probe

open Lib Seclang References DataFiles List

/-- The lines of the text of an object that are not empty and not comments, trimmed. -/
def objectLines (text : List Char) : List (List Char) := (secLangLines text).map Go.trim

/-- Such lines of the directives that the drop leaves. -/
def keptLines (directives basenames : List (List Char)) : List (List Char) :=
  (dropSecLangLinesWithBasenames directives basenames).flatMap objectLines

/-- No line of `after` that ends in a chained rule has lost the line that followed it in
`before`. Which lines end in a chained rule is left open. -/
def Unseparated (chains : List Char → Bool) (before after : List (List Char)) : Prop :=
  ∀ a b, [a, b] <:+: before → chains a = true → a ∈ after → [a, b] <:+: after

/-! ## The lines that are left -/

lemma keptLines_append (ds ds' basenames : List (List Char)) :
    keptLines (ds ++ ds') basenames = keptLines ds basenames ++ keptLines ds' basenames := by
  simp [keptLines, dropSecLangLinesWithBasenames_eq_filter]

variable (text : List Char) (basenames : List (List Char))

lemma keptLines_singleton :
    keptLines [text] basenames
      = if lineReferencesFromFileBasename text basenames then [] else objectLines text := by
  rw [keptLines, dropSecLangLinesWithBasenames_eq_filter]
  cases h : lineReferencesFromFileBasename text basenames with
  | false => simp [h]
  | true => simp [h]

lemma keptLines_nil : keptLines [] basenames = [] := by
  rw [keptLines, dropSecLangLinesWithBasenames_eq_filter, filter_nil, flatMap_nil]

lemma keptLines_eq_flatMap (ds basenames : List (List Char)) :
    keptLines ds basenames = ds.flatMap fun d => keptLines [d] basenames := by
  induction ds with
  | nil => rw [keptLines_nil, flatMap_nil]
  | cons d ds ih =>
    rw [← singleton_append, keptLines_append, ih, flatMap_append, flatMap_singleton]

lemma isSecLangLine_trim (line : List Char) :
    isSecLangLine (Go.trim line) = isSecLangLine line := by
  have htrim : Go.trimFunc Go.isSpace (Go.trim line) = Go.trim line := Go.trim_trim line
  rw [isSecLangLine, isSecLangLine, htrim]
  rfl

lemma objectLines_of_notMem {line : List Char} (h : '\n' ∉ line) :
    objectLines line = if isSecLangLine line then [Go.trim line] else [] := by
  rw [objectLines, secLangLines, Go.lines_of_notMem h]
  cases hline : isSecLangLine line with
  | false => simp [hline]
  | true => simp [hline]

lemma keptLines_objectLines :
    keptLines (objectLines text) basenames
      = (objectLines text).filter fun line => !lineReferencesFromFileBasename line basenames := by
  rw [keptLines, dropSecLangLinesWithBasenames_eq_filter]
  have hself : ∀ line ∈ objectLines text, objectLines line = [line] := by
    intro line hline
    obtain ⟨raw, hraw, rfl⟩ := mem_map.mp hline
    obtain ⟨hmem, hlang⟩ := mem_filter.mp hraw
    have hfeed : '\n' ∉ Go.trim raw := fun h =>
      Go.notMem_of_mem_lines hmem (Go.mem_of_mem_trim h)
    rw [objectLines_of_notMem hfeed, isSecLangLine_trim, hlang, if_pos rfl, Go.trim_trim]
  rw [flatMap_congr fun line hline => hself line (mem_of_mem_filter hline)]
  exact flatMap_singleton' _

/-! ## The document -/

lemma keptLines_nil_line : keptLines (Go.lines []) basenames = [] :=
  (keptLines_singleton [] basenames).trans (ite_self _)

lemma keptLines_joinLines (parts basenames : List (List Char)) :
    keptLines (Go.lines (Go.joinLines parts)) basenames
      = parts.flatMap fun part => keptLines (Go.lines part) basenames := by
  induction parts with
  | nil => exact keptLines_nil_line basenames
  | cons part parts ih =>
    cases parts with
    | nil => rw [Go.joinLines, intercalate_singleton, flatMap_singleton]
    | cons part' parts =>
      rw [Go.joinLines_cons_cons, Go.lines_append_cons, keptLines_append, ih]
      rfl

lemma keptLines_joinDocument (parts : List (List (List Char))) (basenames : List (List Char)) :
    keptLines (Go.lines (joinDocument parts)) basenames
      = parts.flatten.flatMap fun part => keptLines (Go.lines (Go.trim part)) basenames := by
  rw [joinDocument, keptLines_joinLines]
  induction parts.flatten with
  | nil => rfl
  | cons part rest ih =>
    rw [map_cons, flatMap_cons, ← ih]
    by_cases hnil : Go.trim part = []
    · rw [filter_cons_of_neg (by simpa using hnil), hnil, keptLines_nil_line,
        nil_append]
    · rw [filter_cons_of_pos (by simpa using hnil), flatMap_cons]

lemma keptLines_trim_of_not_secLang {line : List Char} (hfeed : '\n' ∉ line)
    (h : isSecLangLine line = false) (basenames : List (List Char)) :
    keptLines [Go.trim line] basenames = [] := by
  have hfeed' : '\n' ∉ Go.trim line := fun hmem => hfeed (Go.mem_of_mem_trim hmem)
  have hlines : objectLines (Go.trim line) = [] := by
    rw [objectLines_of_notMem hfeed', isSecLangLine_trim, h]
    rfl
  rw [keptLines_singleton, hlines, ite_self]

lemma keptLines_splitLines :
    ((splitLines text).flatMap fun part => keptLines (Go.lines (Go.trim part)) basenames)
      = keptLines (objectLines text) basenames := by
  rw [splitLines]
  by_cases hnil : text = []
  · rw [if_pos hnil, hnil]
    exact (keptLines_nil basenames).symm
  rw [if_neg hnil, objectLines, secLangLines]
  have hfeeds : ∀ line ∈ Go.lines text, '\n' ∉ line := fun line => Go.notMem_of_mem_lines
  generalize Go.lines text = lines at hfeeds
  induction lines with
  | nil => exact (keptLines_nil basenames).symm
  | cons line lines ih =>
    have ih := ih fun l hl => hfeeds l (mem_cons_of_mem line hl)
    have hfeed := hfeeds line mem_cons_self
    have hsingle : Go.lines (Go.trim line) = [Go.trim line] :=
      Go.lines_of_notMem fun hmem => hfeed (Go.mem_of_mem_trim hmem)
    by_cases hlang : isSecLangLine line = true
    · have hblank : Go.trim line ≠ [] := by
        have h := hlang
        rw [isSecLangLine, Bool.and_eq_true] at h
        exact of_decide_eq_true h.1
      rw [filter_cons_of_pos (by simpa using hblank), flatMap_cons, ih, hsingle,
        filter_cons_of_pos hlang, map_cons, ← keptLines_append, singleton_append]
    · rw [filter_cons_of_neg hlang, ← ih]
      by_cases hblank : Go.trim line = []
      · rw [filter_cons_of_neg (by simpa using hblank)]
      · -- a comment
        rw [filter_cons_of_pos (by simpa using hblank), flatMap_cons, hsingle,
          keptLines_trim_of_not_secLang hfeed (Bool.not_eq_true _ ▸ hlang), nil_append]

section
variable {α : Type} {lib : Crslang α} {text : List (SeclangDirective α) → String}

lemma keptLines_assembleResolved {objects : List Object} {stamp : Bool}
    {crs : Option CRSTuning} {blobs : List String} {asm : AssemblyResult}
    (hblobs : getSecLang lib text objects = .ok blobs)
    (hasm : assembleResolved lib text objects stamp crs = .ok asm)
    (basenames : List (List Char)) :
    keptLines (Go.lines asm.directives) basenames
      = keptLines (Go.lines (joinDocument [headLines stamp crs])) basenames
        ++ ((blobs.map String.toList).flatMap (fun b => keptLines (objectLines b) basenames)
          ++ keptLines (Go.lines (joinDocument [tailLines crs])) basenames) := by
  have hrules : ((blobs.map fun b => splitLines b.toList).flatten.flatMap fun part =>
        keptLines (Go.lines (Go.trim part)) basenames)
      = (blobs.map String.toList).flatMap fun b => keptLines (objectLines b) basenames := by
    rw [← flatMap_def, flatMap_assoc, flatMap_map]
    exact flatMap_congr fun b _ => keptLines_splitLines b.toList basenames
  rw [ruleLines_of_getSecLang hblobs hasm, assembleFromRuleLines]
  simp [keptLines_joinDocument, hrules]

end

/-! ## Lines and texts -/

lemma mem_referenced_of_mem_objectLines {text line base : List Char}
    (hline : line ∈ objectLines text) (h : base ∈ referenced line) : base ∈ referenced text := by
  obtain ⟨raw, hraw, rfl⟩ := mem_map.mp hline
  exact mem_referenced_of_mem_lines (mem_of_mem_filter hraw) (mem_referenced_of_trim h)

lemma keptLines_objectLines_of_kept {text : List Char} {basenames : List (List Char)}
    (h : lineReferencesFromFileBasename text basenames = false) :
    keptLines (objectLines text) basenames = objectLines text := by
  rw [keptLines_objectLines, filter_eq_self]
  intro line hline
  rw [Bool.not_eq_true', ← Bool.not_eq_true, lineReferencesFromFileBasename_iff]
  intro ⟨base, hbase, href⟩
  have htext := lineReferencesFromFileBasename_iff.mpr
    ⟨base, hbase, mem_referenced_of_mem_objectLines hline href⟩
  rw [h] at htext
  cases htext

lemma keptLines_singleton_sublist :
    (keptLines [text] basenames).Sublist (keptLines (objectLines text) basenames) := by
  rw [keptLines_singleton]
  cases h : lineReferencesFromFileBasename text basenames with
  | true => exact nil_sublist _
  | false =>
    rw [keptLines_objectLines_of_kept h]
    exact List.Sublist.refl _

lemma flatMap_sublist {γ δ : Type} {f g : γ → List δ} {l : List γ}
    (hsub : ∀ a ∈ l, (f a).Sublist (g a)) : (l.flatMap f).Sublist (l.flatMap g) := by
  induction l with
  | nil => exact List.Sublist.refl _
  | cons b l ih =>
    rw [flatMap_cons, flatMap_cons]
    exact (hsub b mem_cons_self).append
      (ih fun a ha => hsub a (mem_cons_of_mem b ha))

lemma forall_eq_of_flatMap_eq {γ δ : Type} {f g : γ → List δ} {l : List γ}
    (hsub : ∀ a ∈ l, (f a).Sublist (g a)) (h : l.flatMap f = l.flatMap g) :
    ∀ a ∈ l, f a = g a := by
  induction l with
  | nil => exact fun a ha => absurd ha not_mem_nil
  | cons b l ih =>
    have hb := hsub b mem_cons_self
    have hl : ∀ a ∈ l, (f a).Sublist (g a) := fun a ha => hsub a (mem_cons_of_mem b ha)
    have hrest : (l.flatMap f).length ≤ (l.flatMap g).length :=
      (flatMap_sublist hl).length_le
    rw [flatMap_cons, flatMap_cons] at h
    have hlength : (f b).length = (g b).length := by
      have htotal := congrArg List.length h
      rw [length_append, length_append] at htotal
      have hle := hb.length_le
      omega
    obtain ⟨hhead, htail⟩ := append_inj h hlength
    intro a ha
    rcases mem_cons.mp ha with rfl | ha
    · exact hhead
    · exact ih hl htail a ha

/-! ## Agreement -/

/-- Each line of an object's text references the files that the text references, as far as the
scan reports them. -/
def WholeReferences (blobs : List (List Char)) : Prop :=
  ∀ b ∈ blobs, ∀ base ∈ referenced b, base ∈ scanPmFromFileBasenames blobs →
    ∀ line ∈ objectLines b, base ∈ referenced line

instance (blobs : List (List Char)) : Decidable (WholeReferences blobs) :=
  inferInstanceAs (Decidable (∀ b ∈ blobs, ∀ base ∈ referenced b,
    base ∈ scanPmFromFileBasenames blobs → ∀ line ∈ objectLines b, base ∈ referenced line))

lemma keptLines_objectLines_eq {blobs basenames : List (List Char)} (h : WholeReferences blobs)
    (hmissing : ∀ base ∈ basenames, base ∈ scanPmFromFileBasenames blobs) {b : List Char}
    (hb : b ∈ blobs) : keptLines (objectLines b) basenames = keptLines [b] basenames := by
  rw [keptLines_singleton]
  cases hdrop : lineReferencesFromFileBasename b basenames with
  | false => rw [keptLines_objectLines_of_kept hdrop]; rfl
  | true =>
    obtain ⟨base, hbase, href⟩ := lineReferencesFromFileBasename_iff.mp hdrop
    rw [keptLines_objectLines, if_pos rfl, filter_eq_nil_iff]
    intro line hline
    have hlineRef : lineReferencesFromFileBasename line basenames = true :=
      lineReferencesFromFileBasename_iff.mpr
        ⟨base, hbase, h b hb base href (hmissing base hbase) line hline⟩
    rw [hlineRef]
    exact Bool.false_ne_true

lemma unseparated_keptLines_singleton (chains : List Char → Bool) (b : List Char)
    (basenames : List (List Char)) :
    Unseparated chains (objectLines b) (keptLines [b] basenames) := by
  intro a a' hpair _ ha
  rw [keptLines_singleton] at ha ⊢
  cases hdrop : lineReferencesFromFileBasename b basenames with
  | false => exact hpair
  | true =>
    rw [hdrop] at ha
    exact absurd ha not_mem_nil

section
variable {α : Type} {lib : Crslang α} {text : List (SeclangDirective α) → String}

/-- For all missing files the probe leaves the lines of the rules that the dataplane leaves, and
neither leaves part of a chain, exactly when the lines of each text reference the same files. -/
theorem probe_degrades_iff (objects : List Object) (stamp : Bool) (crs : Option CRSTuning)
    (chains : List Char → Bool) {blobs : List String} {asm : AssemblyResult}
    (hblobs : getSecLang lib text objects = .ok blobs)
    (hasm : assembleResolved lib text objects stamp crs = .ok asm) :
    (∀ missing : List (List Char),
      (∀ base ∈ missing, base ∈ scanPmFromFileBasenames (blobs.map String.toList)) →
      keptLines (Go.lines asm.directives) missing
          = keptLines (Go.lines (joinDocument [headLines stamp crs])) missing
            ++ (keptLines (blobs.map String.toList) missing
              ++ keptLines (Go.lines (joinDocument [tailLines crs])) missing)
        ∧ ∀ b ∈ blobs.map String.toList,
          Unseparated chains (objectLines b) (keptLines (objectLines b) missing)
            ∧ Unseparated chains (objectLines b) (keptLines [b] missing))
      ↔ WholeReferences (blobs.map String.toList) := by
  constructor
  · intro h b hb base href hscan line hline
    have hmissing : ∀ base' ∈ [base],
        base' ∈ scanPmFromFileBasenames (blobs.map String.toList) := by
      intro base' hbase'
      rwa [mem_singleton.mp hbase']
    have heq := (h [base] hmissing).1
    rw [keptLines_assembleResolved hblobs hasm] at heq
    have hrules := append_cancel_right (append_cancel_left heq)
    rw [keptLines_eq_flatMap (blobs.map String.toList)] at hrules
    -- the text is dropped as a whole, so each of its lines is
    have hkept := forall_eq_of_flatMap_eq
      (fun b' _ => keptLines_singleton_sublist b' [base]) hrules.symm b hb
    have hdrop : lineReferencesFromFileBasename b [base] = true :=
      lineReferencesFromFileBasename_iff.mpr ⟨base, mem_singleton_self base, href⟩
    rw [keptLines_singleton, hdrop, if_pos rfl, keptLines_objectLines, eq_comm,
      filter_eq_nil_iff] at hkept
    have hlineRef : lineReferencesFromFileBasename line [base] = true := by
      have hnot := hkept line hline
      rwa [Bool.not_eq_true, Bool.not_eq_false'] at hnot
    obtain ⟨base', hbase', href'⟩ := lineReferencesFromFileBasename_iff.mp hlineRef
    rwa [mem_singleton.mp hbase'] at href'
  · intro h missing hmissing
    have hobject := fun b hb => keptLines_objectLines_eq h hmissing (b := b) hb
    constructor
    · rw [keptLines_assembleResolved hblobs hasm, flatMap_congr hobject, ← keptLines_eq_flatMap]
    · intro b hb
      rw [hobject b hb]
      exact ⟨unseparated_keptLines_singleton chains b missing,
        unseparated_keptLines_singleton chains b missing⟩

end

/-- Rules of one line. -/
def singleLineObjects : List Object :=
  [ruleObject "paths"
      { metadata := some { id := 10 }, matchLinks := [uriMatch .pmFromFile "paths.data"] },
    ruleObject "plain" { metadata := some { id := 20 }, matchLinks := [uriMatch .rx "x"] }]

def singleLineBlobs : List String :=
  ["SecRule REQUEST_URI \"@pmFromFile paths.data\" \"id:10\"",
    "SecRule REQUEST_URI \"@rx x\" \"id:20\""]

theorem probe_degrades_singleLine :
    getSecLang plainCrslang linesText singleLineObjects = .ok singleLineBlobs
      ∧ ∃ asm, assembleResolved plainCrslang linesText singleLineObjects true none = .ok asm
        ∧ keptLines (Go.lines asm.directives) ["paths.data".toList]
          = keptLines (Go.lines (joinDocument [headLines true none])) ["paths.data".toList]
            ++ (keptLines (singleLineBlobs.map String.toList) ["paths.data".toList]
              ++ keptLines (Go.lines (joinDocument [tailLines none])) ["paths.data".toList]) := by
  have hblobs : getSecLang plainCrslang linesText singleLineObjects = .ok singleLineBlobs := by
    decide +kernel
  have hok : (assembleResolved plainCrslang linesText singleLineObjects true none).isOk = true := by
    decide +kernel
  refine ⟨hblobs, ?_⟩
  cases hasm : assembleResolved plainCrslang linesText singleLineObjects true none with
  | error e =>
    rw [hasm] at hok
    cases hok
  | ok asm =>
    exact ⟨asm, rfl, (((probe_degrades_iff singleLineObjects true none (fun _ => false)
      hblobs hasm).mpr (by decide +kernel)) ["paths.data".toList] (by decide +kernel)).1⟩

/-- A chain whose second link reads a file. -/
def chainObjects : List Object :=
  [ruleObject "chain"
    { metadata := some { id := 10 }
      matchLinks := [uriMatch .rx "x", uriMatch .pmFromFile "paths.data"] }]

def chainHead : String := "SecRule REQUEST_URI \"@rx x\" \"id:10,chain\""

def chainBlobs : List String :=
  [chainHead ++ "\nSecRule REQUEST_URI \"@pmFromFile paths.data\" \"\""]

/-- The dataplane drops the whole rule. The probe keeps the head of the chain, whose second link is
gone. -/
theorem probe_splits_chain :
    getSecLang plainCrslang linesText chainObjects = .ok chainBlobs
      ∧ "paths.data".toList ∈ scanPmFromFileBasenames (chainBlobs.map String.toList)
      ∧ keptLines (chainBlobs.map String.toList) ["paths.data".toList] = []
      ∧ ((assembleResolved plainCrslang linesText chainObjects false none).map fun asm =>
          keptLines (Go.lines asm.directives) ["paths.data".toList])
        = .ok (probePreamble ++ [chainHead.toList]) := by
  decide +kernel

end KubeWaf.Probe
