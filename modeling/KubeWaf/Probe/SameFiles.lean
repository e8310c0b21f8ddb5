import KubeWaf.Probe.Refinement

/-!
# The data files of a probe and of the dataplane

For one basename the two lookups differ in how they rank the lists and in how they read a
ConfigMap. A PhraseList that is not Ready hides the IPLists of its file name from the probe only,
and `binaryData` reaches the dataplane as base64 text. With `settle` this carries over to whole
resolutions: `resolutions_agree_iff`.
-/

namespace KubeWaf.Probe

open Lib DataFiles List

variable {l : DataList}

/-! ## Bodies -/

/-- The keys of ConfigMaps that the body of a list is read from. -/
def sources (l : DataList) : List ConfigMapKeyRef :=
  if l.content ≠ [] then []
  else
    match l.configMapRef with
    | some ref => [ref]
    | none => l.parts

/-- The key holds bytes in `binaryData`, and nothing in `data`. -/
def readsBinary (ns : Namespace) (ref : ConfigMapKeyRef) : Bool :=
  match ns.configMaps.find? (·.name = ref.name) with
  | none => false
  | some cm =>
    (cm.data.lookup ref.key).isNone && (cm.binaryData.lookup ref.key).any fun v => v ≠ []

/-- The body of a list is read from `binaryData`, in part at least. -/
def usesBinary (ns : Namespace) (l : DataList) : Bool := (sources l).any (readsBinary ns)

/-- What the probe reads, as the dataplane reads it: the same bytes, or a longer text without
line feeds. -/
def Reread (binary : Bool) (part part' : Bytes) : Prop :=
  (binary = false ∧ part' = part)
    ∨ (binary = true ∧ part.length < part'.length ∧ (10 : UInt8) ∉ part')

lemma readConfigMapKey_reread {ns : Namespace} {ref : ConfigMapKeyRef} {part : Bytes}
    (h : readConfigMapKey ns ref = .ok part) :
    ∃ part', DataFiles.readConfigMapKey ns ref = .ok part'
      ∧ Reread (readsBinary ns ref) part part' := by
  rw [readConfigMapKey, readConfigMapKeyWith] at h
  rw [DataFiles.readConfigMapKey, readConfigMapKeyWith, readsBinary]
  cases hcm : ns.configMaps.find? (·.name = ref.name) with
  | none =>
    rw [hcm] at h
    cases h
  | some cm =>
    rw [hcm] at h
    cases hdata : cm.data.lookup ref.key with
    | some v =>
      simp only [hdata] at h ⊢
      exact ⟨v, rfl, Or.inl ⟨rfl, Except.ok.inj h⟩⟩
    | none =>
      simp only [hdata] at h ⊢
      cases hbin : cm.binaryData.lookup ref.key with
      | none =>
        rw [hbin] at h
        cases h
      | some v =>
        rw [hbin] at h
        obtain rfl : v = part := Except.ok.inj h
        refine ⟨Base64.encode v, rfl, ?_⟩
        by_cases hv : v = []
        · rw [hv]
          exact Or.inl ⟨rfl, rfl⟩
        · refine Or.inr ⟨?_, Base64.length_lt_length_encode hv, Base64.lineFeed_notMem_encode v⟩
          simpa using hv

lemma length_partLine {binary : Bool} {part part' : Bytes} (h : Reread binary part part') :
    (binary = false → partLine part' = partLine part)
      ∧ (partLine part).length ≤ (partLine part').length
      ∧ (binary = true → (partLine part).length < (partLine part').length) := by
  rcases h with ⟨hbinary, rfl⟩ | ⟨hbinary, hlength, hfeed⟩
  · exact ⟨fun _ => rfl, le_refl _, fun h => by rw [hbinary] at h; cases h⟩
  · have hne : part' ≠ [] := by
      intro hnil
      rw [hnil] at hlength
      exact absurd hlength (Nat.not_lt_zero _)
    have hlast : part'.getLast? ≠ some 10 := fun h =>
      hfeed (mem_of_getLast? h)
    have hline' : (partLine part').length = part'.length + 1 := by
      rw [partLine, if_pos ⟨hne, hlast⟩, length_append]
      rfl
    have hline : (partLine part).length ≤ part.length + 1 := by
      rw [partLine]
      split_ifs
      · rw [length_append]
        rfl
      · exact Nat.le_succ _
    refine ⟨fun h => ?_, by omega, fun _ => by omega⟩
    rw [hbinary] at h
    cases h

lemma mapM_reread {ns : Namespace} {refs : List ConfigMapKeyRef} {parts : List Bytes}
    (h : refs.mapM (readConfigMapKey ns) = .ok parts) :
    ∃ parts', refs.mapM (DataFiles.readConfigMapKey ns) = .ok parts'
      ∧ (refs.any (readsBinary ns) = false →
        parts'.flatMap partLine = parts.flatMap partLine)
      ∧ (parts.flatMap partLine).length ≤ (parts'.flatMap partLine).length
      ∧ (refs.any (readsBinary ns) = true →
        (parts.flatMap partLine).length < (parts'.flatMap partLine).length) := by
  have hall := mapM_eq_ok.mp h
  clear h
  induction hall with
  | nil => exact ⟨[], rfl, fun _ => rfl, le_refl _, fun h => by cases h⟩
  | @cons ref part refs parts href _ ih =>
    obtain ⟨part', hread, hreread⟩ := readConfigMapKey_reread href
    obtain ⟨parts', hreads, hsame, hle, hlt⟩ := ih
    obtain ⟨hline, hlineLe, hlineLt⟩ := length_partLine hreread
    refine ⟨part' :: parts', ?_, ?_, ?_, ?_⟩
    · rw [mapM_cons, hread, hreads]
      rfl
    · intro hany
      rw [any_cons, Bool.or_eq_false_iff] at hany
      rw [flatMap_cons, flatMap_cons, hline hany.1, hsame hany.2]
    · rw [flatMap_cons, flatMap_cons, length_append, length_append]
      omega
    · intro hany
      rw [any_cons, Bool.or_eq_true] at hany
      rw [flatMap_cons, flatMap_cons, length_append, length_append]
      rcases hany with hany | hany
      · have := hlineLt hany
        omega
      · have := hlt hany
        omega

lemma resolveBody_reread {kind : String} {ns : Namespace} {body : Bytes}
    (h : resolveBody kind ns l = .ok body) :
    ∃ body', resolveBodyWith (DataFiles.readConfigMapKey ns) kind ns l = .ok body'
      ∧ (usesBinary ns l = false → body' = body)
      ∧ (usesBinary ns l = true → body.length < body'.length) := by
  rw [resolveBody, resolveBodyWith] at h
  rw [resolveBodyWith, usesBinary, sources]
  by_cases hcontent : l.content ≠ []
  · rw [if_pos hcontent] at h ⊢
    rw [if_pos hcontent]
    exact ⟨l.content, rfl, fun _ => Except.ok.inj h, fun h => by cases h⟩
  · rw [if_neg hcontent] at h ⊢
    rw [if_neg hcontent]
    cases href : l.configMapRef with
    | some ref =>
      simp only [href] at h ⊢
      obtain ⟨part', hread, hreread⟩ := readConfigMapKey_reread h
      refine ⟨part', hread, ?_, ?_⟩
      · rw [any_cons, any_nil, Bool.or_false]
        intro hbinary
        rcases hreread with ⟨_, hsame⟩ | ⟨htrue, _⟩
        · exact hsame
        · rw [hbinary] at htrue
          cases htrue
      · rw [any_cons, any_nil, Bool.or_false]
        intro hbinary
        rcases hreread with ⟨hfalse, _⟩ | ⟨_, hlength, _⟩
        · rw [hbinary] at hfalse
          cases hfalse
        · exact hlength
    | none =>
      simp only [href] at h ⊢
      by_cases hparts : l.parts ≠ []
      · rw [if_pos hparts] at h ⊢
        cases hreads : l.parts.mapM (readConfigMapKey ns) with
        | error e =>
          rw [hreads] at h
          cases h
        | ok parts =>
          rw [hreads] at h
          obtain rfl : parts.foldl appendPart [] = body := Except.ok.inj h
          obtain ⟨parts', hreads', hsame, _, hlt⟩ := mapM_reread hreads
          rw [hreads']
          refine ⟨parts'.foldl appendPart [], rfl, ?_, ?_⟩
          · rw [foldl_appendPart _ (Or.inl rfl), foldl_appendPart _ (Or.inl rfl)]
            exact hsame
          · rw [foldl_appendPart _ (Or.inl rfl), foldl_appendPart _ (Or.inl rfl)]
            exact hlt
      · rw [if_neg hparts] at h
        cases h

/-! ## One basename -/

/-- The lists of a file name. -/
def named (lists : List DataList) (base : List Char) : List DataList :=
  lists.filter fun l => l.fileName = base

def readyNamed (lists : List DataList) (base : List Char) : List DataList :=
  (named lists base).filter (·.ready)

/-- A list with `spec.fileName` and a body that is not empty. -/
structure Composed (kind : String) (ns : Namespace) (l : DataList) : Prop where
  fileName : l.fileName ≠ []
  body : ∃ body, body ≠ [] ∧ resolveBody kind ns l = .ok body

/-- All lists of a namespace are such. -/
structure ListsComposed (ns : Namespace) : Prop where
  phraseLists : ∀ l ∈ ns.phraseLists, Composed "PhraseList" ns l
  ipLists : ∀ l ∈ ns.ipLists, Composed "IPList" ns l

/-- The outcome of reading the body of a list. -/
def bodyOutcome (body : Except String Bytes) : Outcome Bytes :=
  match body with
  | .error _ => .refused
  | .ok body => .found body

/-- What the lists of one kind give for a basename, where those that are not Ready do not count. -/
def kindOutcome (body : DataList → Outcome Bytes) (lists : List DataList) (base : List Char) :
    Outcome Bytes :=
  match readyNamed lists base with
  | [] => .missing
  | [l] => body l
  | _ :: _ :: _ => .refused

section
variable {kind : String} {ns : Namespace} {lists : List DataList} {base : List Char}

lemma mem_readyNamed (h : l ∈ readyNamed lists base) : l ∈ lists :=
  mem_of_mem_filter (mem_of_mem_filter h)

lemma lookupReady_eq (hlists : ∀ l ∈ lists, Composed kind ns l) :
    lookupReady kind ns lists base = onlyReady kind ns base (readyNamed lists base) := by
  rw [lookupReady, readyNamed, named, filter_filter, filter_filter]
  refine congrArg _ (filter_congr fun l hl => ?_)
  have hname := (hlists l hl).fileName
  have hindex : indexFileName l = l.fileName := if_neg hname
  rw [hindex, Bool.eq_iff_iff]
  simp only [Bool.and_eq_true, decide_eq_true_eq]
  constructor
  · exact fun h => ⟨h.1.2, h.1.1⟩
  · exact fun h => ⟨⟨h.2, h.1⟩, hname, h.2⟩

lemma pickReady_eq (hlists : ∀ l ∈ lists, Composed kind ns l) :
    pickReady kind ns lists base = match readyNamed lists base with
      | [] => .ok (if named lists base = [] then .absent else .notReady)
      | [l] => .ok (.ready l)
      | _ :: _ :: _ => .error (conflict kind ns base) := by
  have hnamed : (lists.filter fun l => listFileName l = base) = named lists base := by
    refine filter_congr fun l hl => ?_
    rw [listFileName, if_pos (hlists l hl).fileName]
  rw [pickReady, hnamed]
  rfl

end

section
variable {ns : Namespace} (hlists : ListsComposed ns) (base : List Char)
include hlists

lemma dataplaneOutcome_eq :
    dataplaneOutcome ns base
      = if readyNamed ns.phraseLists base = [] then
          kindOutcome (fun l => bodyOutcome (resolveIPListBody ns l)) ns.ipLists base
        else kindOutcome (fun l => bodyOutcome (resolvePhraseListBody ns l)) ns.phraseLists base := by
  rw [dataplaneOutcome, resolveCustom, lookupReadyDataFileBody, lookupReadyPhraseList,
    lookupReady_eq hlists.phraseLists, lookupReadyIPList, lookupReady_eq hlists.ipLists,
    kindOutcome, kindOutcome]
  rcases readyNamed ns.phraseLists base with _ | ⟨l, _ | ⟨l', rest⟩⟩
  · rcases readyNamed ns.ipLists base with _ | ⟨l, _ | ⟨l', rest⟩⟩
    · rfl
    · cases hbody : resolveIPListBody ns l with
      | error e => simp [onlyReady, hbody, bodyOutcome, bind, Except.bind]
      | ok body => simp [onlyReady, hbody, bodyOutcome, bind, Except.bind, pure, Except.pure]
    · rfl
  · cases hbody : resolvePhraseListBody ns l with
    | error e => simp [onlyReady, hbody, bodyOutcome, bind, Except.bind]
    | ok body => simp [onlyReady, hbody, bodyOutcome, bind, Except.bind, pure, Except.pure]
  · rfl

omit hlists in
lemma readyBody_eq {kind : String} (h : Composed kind ns l) :
    ∃ body, readyBody kind ns l = .ok (.ready body)
      ∧ bodyOutcome (resolveBody kind ns l) = .found body := by
  obtain ⟨body, hne, hbody⟩ := h.body
  rw [readyBody, hbody]
  cases body with
  | nil => exact absurd rfl hne
  | cons b body => exact ⟨b :: body, rfl, rfl⟩

lemma probeOutcome_eq :
    probeOutcome ns base
      = if named ns.phraseLists base = [] then
          kindOutcome (fun l => bodyOutcome (resolveBody "IPList" ns l)) ns.ipLists base
        else kindOutcome (fun l => bodyOutcome (resolveBody "PhraseList" ns l))
          ns.phraseLists base := by
  rw [probeOutcome, lookup, pickReady_eq hlists.phraseLists, pickReady_eq hlists.ipLists]
  by_cases hnamed : named ns.phraseLists base = []
  · have hready : readyNamed ns.phraseLists base = [] := by
      rw [readyNamed, hnamed, filter_nil]
    rw [if_pos hnamed, hready, kindOutcome]
    simp only [if_pos hnamed]
    rcases hip : readyNamed ns.ipLists base with _ | ⟨l, _ | ⟨l', rest⟩⟩
    · by_cases hnamedIP : named ns.ipLists base = []
      · simp [if_pos hnamedIP]
      · simp [if_neg hnamedIP]
    · have hl : l ∈ readyNamed ns.ipLists base := hip ▸ mem_singleton_self l
      obtain ⟨body, hbody, hfound⟩ := readyBody_eq (hlists.ipLists l (mem_readyNamed hl))
      simp [hbody, hfound]
    · rfl
  · simp only [if_neg hnamed, kindOutcome]
    rcases hpl : readyNamed ns.phraseLists base with _ | ⟨l, _ | ⟨l', rest⟩⟩
    · rfl
    · have hl : l ∈ readyNamed ns.phraseLists base := hpl ▸ mem_singleton_self l
      obtain ⟨body, hbody, hfound⟩ := readyBody_eq (hlists.phraseLists l (mem_readyNamed hl))
      simp [hbody, hfound]
    · rfl

end

/-! ## Agreement on one basename -/

/-- The body of a list that is composed. -/
def composedBody (ns : Namespace) (l : DataList) : Bytes :=
  match resolveBody "" ns l with
  | .ok body => body
  | .error _ => []

/-- The list that counts, of one kind. -/
def onlyNamed (lists : List DataList) (base : List Char) : Option DataList :=
  match readyNamed lists base with
  | [l] => some l
  | _ => none

/-- The list that has the only say on a basename, for the probe and for the dataplane. -/
def picked (ns : Namespace) (base : List Char) : Option DataList :=
  onlyNamed (if named ns.phraseLists base = [] then ns.ipLists else ns.phraseLists) base

/-- Neither difference of the two lookups shows for a basename. -/
structure SameFile (ns : Namespace) (base : List Char) : Prop where
  /-- No Ready IPList stands behind PhraseLists that are not Ready. -/
  notHidden : readyNamed ns.phraseLists base = [] → named ns.phraseLists base ≠ [] →
    readyNamed ns.ipLists base = []
  /-- The list is not read from `binaryData`, unless it exceeds the budget anyway. -/
  decoded : ∀ l ∈ picked ns base, usesBinary ns l = true →
    maxPhraseFilesRawBytes < (composedBody ns l).length

/-- An outcome within the budget of the data files. -/
def inBudget (o : Outcome Bytes) : Outcome Bytes := o.within List.length maxPhraseFilesRawBytes

section
variable {ns : Namespace}

lemma composedBody_eq {kind : String} {body : Bytes} (h : resolveBody kind ns l = .ok body) :
    composedBody ns l = body := by
  have hkind : resolveBody "" ns l = .ok body := by
    rw [resolveBody, resolveBodyWith] at h ⊢
    by_cases hcontent : l.content ≠ []
    · rw [if_pos hcontent] at h ⊢
      exact h
    · rw [if_neg hcontent] at h ⊢
      cases href : l.configMapRef with
      | some ref =>
        rw [href] at h
        exact h
      | none =>
        rw [href] at h
        by_cases hparts : l.parts ≠ []
        · simp only [if_pos hparts] at h ⊢
          exact h
        · simp only [if_neg hparts] at h
          cases h
  rw [composedBody, hkind]

lemma inBudget_body_iff {kind : String} (h : Composed kind ns l) :
    inBudget (bodyOutcome (resolveBodyWith (DataFiles.readConfigMapKey ns) kind ns l))
        = inBudget (bodyOutcome (resolveBody kind ns l))
      ↔ (usesBinary ns l = true → maxPhraseFilesRawBytes < (composedBody ns l).length) := by
  obtain ⟨body, _, hbody⟩ := h.body
  obtain ⟨body', hbody', hsame, hlonger⟩ := resolveBody_reread hbody
  rw [hbody, hbody', composedBody_eq hbody]
  cases hbinary : usesBinary ns l with
  | false =>
    rw [hsame hbinary]
    exact ⟨fun _ h => absurd h Bool.false_ne_true, fun _ => rfl⟩
  | true =>
    have hlength := hlonger hbinary
    simp only [forall_const, bodyOutcome, inBudget, Outcome.within]
    by_cases hbudget : maxPhraseFilesRawBytes < body.length
    · rw [if_pos hbudget, if_pos (by omega)]
      exact ⟨fun _ => hbudget, fun _ => rfl⟩
    · refine ⟨fun heq => ?_, fun hlt => absurd hlt hbudget⟩
      rw [if_neg hbudget] at heq
      split_ifs at heq
      -- a longer body is another one
      have hbodies : body' = body := Outcome.found.inj heq
      rw [hbodies] at hlength
      exact absurd hlength (lt_irrefl _)

lemma mem_onlyNamed {lists : List DataList} {base : List Char} (h : l ∈ onlyNamed lists base) :
    l ∈ lists := by
  rw [onlyNamed] at h
  split at h
  · next l' hready =>
    rw [← Option.some.inj h]
    exact mem_readyNamed (hready ▸ mem_singleton_self l')
  · cases h

lemma kindOutcome_iff {body body' : DataList → Outcome Bytes} {lists : List DataList}
    {base : List Char} :
    inBudget (kindOutcome body lists base) = inBudget (kindOutcome body' lists base)
      ↔ ∀ l ∈ onlyNamed lists base, inBudget (body l) = inBudget (body' l) := by
  rw [kindOutcome, kindOutcome, onlyNamed]
  match readyNamed lists base with
  | [] => simp
  | [l] => simp
  | _ :: _ :: _ => simp

lemma kindOutcome_missing_iff {kind : String} {lists : List DataList} {base : List Char}
    (hlists : ∀ l ∈ lists, Composed kind ns l) :
    inBudget (kindOutcome (fun l => bodyOutcome
        (resolveBodyWith (DataFiles.readConfigMapKey ns) kind ns l)) lists base) = .missing
      ↔ readyNamed lists base = [] := by
  rw [kindOutcome]
  match hready : readyNamed lists base with
  | [] => simp [inBudget, Outcome.within]
  | [l] =>
    obtain ⟨body, _, hbody⟩ :=
      (hlists l (mem_readyNamed (hready ▸ mem_singleton_self l))).body
    obtain ⟨body', hbody', _⟩ := resolveBody_reread hbody
    simp only [hbody', bodyOutcome, inBudget, Outcome.within]
    split_ifs <;> simp
  | _ :: _ :: _ => simp [inBudget, Outcome.within]

lemma sameFile_iff (hlists : ListsComposed ns) (base : List Char) :
    inBudget (dataplaneOutcome ns base) = inBudget (probeOutcome ns base) ↔ SameFile ns base := by
  rw [dataplaneOutcome_eq hlists, probeOutcome_eq hlists]
  by_cases hnamed : named ns.phraseLists base = []
  · -- both ask the IPLists
    have hready : readyNamed ns.phraseLists base = [] := by
      rw [readyNamed, hnamed, filter_nil]
    have hpicked : picked ns base = onlyNamed ns.ipLists base := by
      rw [picked, if_pos hnamed]
    rw [if_pos hready, if_pos hnamed, kindOutcome_iff]
    constructor
    · intro h
      refine ⟨fun _ hne => absurd hnamed hne, fun l hl => ?_⟩
      rw [hpicked] at hl
      exact (inBudget_body_iff (hlists.ipLists l (mem_onlyNamed hl))).mp (h l hl)
    · intro h l hl
      exact (inBudget_body_iff (hlists.ipLists l (mem_onlyNamed hl))).mpr
        (h.decoded l (hpicked ▸ hl))
  · have hpicked : picked ns base = onlyNamed ns.phraseLists base := by
      rw [picked, if_neg hnamed]
    by_cases hready : readyNamed ns.phraseLists base = []
    · -- only the dataplane asks the IPLists
      have hprobe : kindOutcome (fun l => bodyOutcome (resolveBody "PhraseList" ns l))
          ns.phraseLists base = .missing := by
        rw [kindOutcome, hready]
      have hnone : picked ns base = none := by
        rw [hpicked, onlyNamed, hready]
      rw [if_pos hready, if_neg hnamed, hprobe]
      constructor
      · intro h
        refine ⟨fun _ _ => (kindOutcome_missing_iff hlists.ipLists).mp h, fun l hl => ?_⟩
        rw [hnone] at hl
        cases hl
      · exact fun h => (kindOutcome_missing_iff hlists.ipLists).mpr (h.notHidden hready hnamed)
    · -- both ask the PhraseLists
      rw [if_neg hready, if_neg hnamed, kindOutcome_iff]
      constructor
      · intro h
        refine ⟨fun hnil => absurd hnil hready, fun l hl => ?_⟩
        rw [hpicked] at hl
        exact (inBudget_body_iff (hlists.phraseLists l (mem_onlyNamed hl))).mp (h l hl)
      · intro h l hl
        exact (inBudget_body_iff (hlists.phraseLists l (mem_onlyNamed hl))).mpr
          (h.decoded l (hpicked ▸ hl))

end

/-! ## Agreement -/

/-- Both fail, or both succeed with the same body for each basename and the same basenames
dropped. -/
def SameResult (bases : List (List Char)) :
    Option (List (List Char × Bytes) × List (List Char)) →
      Option (List (List Char × Bytes) × List (List Char)) → Prop
  | none, none => True
  | some (files, dropped), some (files', dropped') =>
    (∀ base ∈ bases, files.lookup base = files'.lookup base)
      ∧ ∀ base, base ∈ dropped ↔ base ∈ dropped'
  | _, _ => False

lemma sameResult_refl (bases : List (List Char))
    (r : Option (List (List Char × Bytes) × List (List Char))) : SameResult bases r r := by
  cases r with
  | none => trivial
  | some r => exact ⟨fun _ _ => rfl, fun _ => Iff.rfl⟩

lemma inBudget_eq_of_sameResult {outcome outcome' : List Char → Outcome Bytes}
    {base : List Char}
    (h : SameResult [base] (settleFiles outcome true [base]) (settleFiles outcome' true [base])) :
    inBudget (outcome base) = inBudget (outcome' base) := by
  rw [settleFiles, settleFiles, settle_singleton, settle_singleton] at h
  rw [inBudget, inBudget]
  generalize (outcome base).within List.length maxPhraseFilesRawBytes = o at h
  generalize (outcome' base).within List.length maxPhraseFilesRawBytes = o' at h
  cases o with
  | refused => cases o' with
    | refused => rfl
    | missing => exact h.elim
    | found body' => exact h.elim
  | missing => cases o' with
    | refused => exact h.elim
    | missing => rfl
    | found body' => exact absurd ((h.2 base).mp mem_cons_self) not_mem_nil
  | found body => cases o' with
    | refused => exact h.elim
    | missing => exact absurd ((h.2 base).mpr mem_cons_self) not_mem_nil
    | found body' =>
      have hlookup := h.1 base mem_cons_self
      simp only [lookup_cons_self, Option.some.injEq] at hlookup
      rw [hlookup]

lemma phraseListPolicyFromWAF_ne (p : String) : phraseListPolicyFromWAF p ≠ "" := by
  rw [phraseListPolicyFromWAF]
  split_ifs <;> decide

lemma phraseListPolicyFromWAF_iff (p : String) :
    phraseListPolicyFromWAF p = "IgnoreUnknown" ↔ p = "IgnoreUnknown" := by
  rw [phraseListPolicyFromWAF]
  split_ifs with h
  · exact ⟨fun _ => h, fun _ => rfl⟩
  · exact ⟨fun hne => absurd hne (by decide), fun heq => absurd heq h⟩

/-- Whatever the policy and the directives, as long as those reference custom files only, the probe
and the dataplane resolve the same files, exactly when the references by name hold and neither
difference of the lookups shows for a file name. -/
theorem resolutions_agree_iff (sha256Hex : Bytes → String) (crs : CrsData)
    (cluster : String → Namespace) (ns : String) (resolved : List RuleSetLists)
    (hlists : ListsComposed (cluster ns)) :
    (∀ (policy : String) (directives : List (List Char)),
      (∀ base ∈ scanPmFromFileBasenames directives, crs.isKnown base = false) →
      SameResult (scanPmFromFileBasenames directives)
        (resolvedFiles (resolveDataFiles (some (clientListProvider cluster)) ns
          (phraseListPolicyFromWAF policy) directives []))
        (published (discoverAndResolvePhraseFiles sha256Hex crs cluster (some ⟨ns, policy⟩)
          directives resolved)))
      ↔ checkRefs (cluster ns) resolved = none
        ∧ ∀ base, IsFileName base → crs.isKnown base = false → SameFile (cluster ns) base := by
  have hprobe : ∀ (policy : String) (directives : List (List Char)),
      resolvedFiles (resolveDataFiles (some (clientListProvider cluster)) ns
          (phraseListPolicyFromWAF policy) directives [])
        = settleFiles (probeOutcome (cluster ns)) (policy = "IgnoreUnknown")
          (scanPmFromFileBasenames directives) := by
    intro policy directives
    rw [resolvedFiles_resolveDataFiles (phraseListPolicyFromWAF_ne policy)]
    simp [phraseListPolicyFromWAF_iff]
  constructor
  · intro h
    have hrefs : checkRefs (cluster ns) resolved = none := by
      cases hcheck : checkRefs (cluster ns) resolved with
      | none => rfl
      | some r =>
        -- directives without references are enough
        have hempty := h "" [] fun base hbase => absurd hbase not_mem_nil
        have hfailed : published (discoverAndResolvePhraseFiles sha256Hex crs cluster
            (some ⟨ns, ""⟩) [] resolved) = none := by
          rw [discoverAndResolvePhraseFiles]
          simp only [discoverFor, hcheck]
          rfl
        have hnone : settleFiles (probeOutcome (cluster ns)) ("" = "IgnoreUnknown") []
            = some ([], []) := settle_nil
        have hscan : scanPmFromFileBasenames [] = [] := rfl
        rw [hprobe, hfailed, hscan, hnone] at hempty
        exact hempty.elim
    refine ⟨hrefs, fun base hname hcustom => (sameFile_iff hlists base).mp ?_⟩
    have hscan := scan_reference hname
    have hone : ∀ b ∈ scanPmFromFileBasenames [reference base], crs.isKnown b = false := by
      intro b hb
      rw [hscan] at hb
      rwa [mem_singleton.mp hb]
    have hagree := h "IgnoreUnknown" [reference base] hone
    rw [hprobe, discoverAndResolvePhraseFiles, published_discoverFor sha256Hex hrefs hone,
      hscan] at hagree
    exact (inBudget_eq_of_sameResult hagree).symm
  · rintro ⟨hrefs, hsame⟩ policy directives hcustom
    rw [hprobe, discoverAndResolvePhraseFiles, published_discoverFor sha256Hex hrefs hcustom]
    have hsettle : settleFiles (probeOutcome (cluster ns)) (policy = "IgnoreUnknown")
          (scanPmFromFileBasenames directives)
        = settleFiles (dataplaneOutcome (cluster ns)) (policy = "IgnoreUnknown")
          (scanPmFromFileBasenames directives) :=
      settle_eq_of_within fun base hbase => ((sameFile_iff hlists base).mpr
        (hsame base (isFileName_of_mem_scan hbase) (hcustom base hbase))).symm
    rw [hsettle]
    exact sameResult_refl _ _

lemma sameFile_of_ready {ns : Namespace} (hready : ∀ l ∈ ns.phraseLists, l.ready = true)
    (hbinary : ∀ l ∈ ns.phraseLists ++ ns.ipLists, usesBinary ns l = false) (base : List Char) :
    SameFile ns base := by
  refine ⟨fun hnil hne => absurd ?_ hne, fun l hl huses => ?_⟩
  · rw [readyNamed, filter_eq_nil_iff] at hnil
    refine eq_nil_iff_forall_not_mem.mpr fun l hl => hnil l hl ?_
    exact hready l (mem_of_mem_filter hl)
  · have hmem : l ∈ ns.phraseLists ++ ns.ipLists := by
      rw [mem_append]
      rw [picked] at hl
      split_ifs at hl
      · exact Or.inr (mem_onlyNamed hl)
      · exact Or.inl (mem_onlyNamed hl)
    rw [hbinary l hmem] at huses
    cases huses

/-- A namespace with a list of each kind. The first is Ready or not. -/
def listNamespace (ready : Bool) (ipFile : List Char) : Namespace where
  name := "shop"
  phraseLists :=
    [{ name := "bots", fileName := "bots.data".toList, ready, content := [98, 111, 116] }]
  ipLists := [{ name := "ips", fileName := ipFile, ready := true, content := [49, 46, 49] }]

lemma listNamespace_composed (ready : Bool) {ipFile : List Char} (h : ipFile ≠ []) :
    ListsComposed (listNamespace ready ipFile) where
  phraseLists l hl := by
    rw [mem_singleton.mp hl]
    have hname : "bots.data".toList ≠ [] := by decide
    exact ⟨hname, [98, 111, 116], by decide, rfl⟩
  ipLists l hl := by
    rw [mem_singleton.mp hl]
    exact ⟨h, [49, 46, 49], by decide, rfl⟩

/-- Two Ready lists of two file names. -/
theorem resolutions_agree_ready :
    ListsComposed (listNamespace true "ips.data".toList)
      ∧ ∀ (policy : String) (directives : List (List Char)),
        SameResult (scanPmFromFileBasenames directives)
          (resolvedFiles (resolveDataFiles
            (some (clientListProvider fun _ => listNamespace true "ips.data".toList)) "shop"
            (phraseListPolicyFromWAF policy) directives []))
          (published (discoverAndResolvePhraseFiles (fun _ => "")
            ⟨fun _ => false, fun _ => .error "file does not exist"⟩
            (fun _ => listNamespace true "ips.data".toList) (some ⟨"shop", policy⟩)
            directives [])) := by
  have hlists : ListsComposed (listNamespace true "ips.data".toList) :=
    listNamespace_composed true (by decide)
  refine ⟨hlists, fun policy directives => ?_⟩
  have hready : ∀ l ∈ (listNamespace true "ips.data".toList).phraseLists, l.ready = true := by
    decide
  have hbinary : ∀ l ∈ (listNamespace true "ips.data".toList).phraseLists
        ++ (listNamespace true "ips.data".toList).ipLists,
      usesBinary (listNamespace true "ips.data".toList) l = false := by decide
  exact (resolutions_agree_iff (fun _ => "") ⟨fun _ => false, fun _ => .error "file does not exist"⟩
    (fun _ => listNamespace true "ips.data".toList) "shop" [] hlists).mpr
    ⟨rfl, fun base _ _ => sameFile_of_ready hready hbinary base⟩ policy directives fun _ _ => rfl

/-- A PhraseList that is not Ready and a Ready IPList of the same file name: the probe refuses the
directive, the dataplane injects the IPList. -/
theorem resolutions_differ_hidden :
    let ns := listNamespace false "bots.data".toList
    let directives := ["SecRule REMOTE_ADDR \"@ipMatchFromFile bots.data\" \"id:1,deny\"".toList]
    ListsComposed ns
      ∧ resolvedFiles (resolveDataFiles (some (clientListProvider fun _ => ns)) "shop"
          (phraseListPolicyFromWAF "FailClosed") directives []) = none
      ∧ published (discoverAndResolvePhraseFiles (fun _ => "")
          ⟨fun _ => false, fun _ => .error "file does not exist"⟩ (fun _ => ns)
          (some ⟨"shop", "FailClosed"⟩) directives [])
        = some ([("bots.data".toList, [49, 46, 49])], []) := by
  refine ⟨listNamespace_composed false (by decide), ?_, ?_⟩ <;> decide +kernel

end KubeWaf.Probe
