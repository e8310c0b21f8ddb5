import KubeWaf.Lib.Settle
import KubeWaf.Probe.DataFiles

/-!
# Two resolutions of one kind

The probe and the dataplane resolve the custom data files of some directives in loops of their
own. Both come down to `settle`: each is determined by what its lookup makes of one basename.
-/

namespace KubeWaf.Probe

open Lib DataFiles List

/-- What the dataplane makes of a custom basename. -/
def dataplaneOutcome (ns : Namespace) (base : List Char) : Outcome Bytes :=
  match resolveCustom ns base with
  | .error _ => .refused
  | .ok none => .missing
  | .ok (some body) => .found body

/-- What the probe makes of a basename. -/
def probeOutcome (ns : Namespace) (base : List Char) : Outcome Bytes :=
  match lookup ns base with
  | .error _ => .refused
  | .ok (.ready body) => .found body
  | .ok _ => .missing

/-- The resolution of some basenames within the budget of the data files. -/
def settleFiles (outcome : List Char → Outcome Bytes) (ignoreUnknown : Bool)
    (bases : List (List Char)) : Option (List (List Char × Bytes) × List (List Char)) :=
  settle List.length maxPhraseFilesRawBytes outcome ignoreUnknown bases

lemma totalSize_eq_rawSize (files : List (List Char × Bytes)) :
    totalSize List.length files = rawSize files := rfl

/-! ## The dataplane -/

/-- The files and the dropped basenames of a resolution without an error. -/
def published (res : PhraseFilesResult) :
    Option (List (List Char × Bytes) × List (List Char)) :=
  match res.error with
  | some _ => none
  | none => some (res.files, res.droppedBasenames)

section
variable {crs : CrsData} {ns : Namespace}

lemma gather_custom {bases : List (List Char)} (hcustom : ∀ base ∈ bases, crs.isKnown base = false)
    (g : Gathered) :
    ((∃ base ∈ bases, (dataplaneOutcome ns base).isRefused = true)
        ∧ ∃ r, (gather crs ns bases g).2 = some r)
      ∨ ((∀ base ∈ bases, (dataplaneOutcome ns base).isRefused = false)
        ∧ (gather crs ns bases g).2 = none
        ∧ (gather crs ns bases g).1.files
          = g.files ++ foundValues (dataplaneOutcome ns) bases
        ∧ (gather crs ns bases g).1.missingCustom
          = g.missingCustom ++ missingKeys (dataplaneOutcome ns) bases) := by
  induction bases generalizing g with
  | nil =>
    refine Or.inr ⟨fun base hbase => absurd hbase not_mem_nil, rfl, ?_, ?_⟩
    · exact (append_nil _).symm
    · exact (append_nil _).symm
  | cons b bases ih =>
    have hb : crs.isKnown b = false := hcustom b mem_cons_self
    have ih := ih fun base hbase => hcustom base (mem_cons_of_mem b hbase)
    rw [gather, hb]
    simp only [Bool.false_eq_true, if_false]
    -- a basename that is found or missing leaves the rest of the loop
    have hrest : (dataplaneOutcome ns b).isRefused = false →
        (∀ base ∈ bases, (dataplaneOutcome ns base).isRefused = false) →
        ∀ base ∈ b :: bases, (dataplaneOutcome ns base).isRefused = false := by
      intro hhead htail base hbase
      rcases mem_cons.mp hbase with rfl | hbase
      · exact hhead
      · exact htail base hbase
    cases hres : resolveCustom ns b with
    | error r =>
      have ho : dataplaneOutcome ns b = .refused := by rw [dataplaneOutcome, hres]
      exact Or.inl ⟨⟨b, mem_cons_self, by rw [ho]; rfl⟩, r, rfl⟩
    | ok found =>
      cases found with
      | some body =>
        have ho : dataplaneOutcome ns b = .found body := by rw [dataplaneOutcome, hres]
        rcases ih { g with files := g.files ++ [(b, body)] } with
          ⟨⟨base, hbase, hr⟩, hsome⟩ | ⟨hall, hnone, hfiles, hmissing⟩
        · exact Or.inl ⟨⟨base, mem_cons_of_mem b hbase, hr⟩, hsome⟩
        · refine Or.inr ⟨hrest (by rw [ho]; rfl) hall, hnone, ?_, ?_⟩
          · simp [hfiles, foundValues, ho, Outcome.value?]
          · simp [hmissing, missingKeys, ho, Outcome.isMissing]
      | none =>
        have ho : dataplaneOutcome ns b = .missing := by rw [dataplaneOutcome, hres]
        rcases ih { g with missingCustom := g.missingCustom ++ [b] } with
          ⟨⟨base, hbase, hr⟩, hsome⟩ | ⟨hall, hnone, hfiles, hmissing⟩
        · exact Or.inl ⟨⟨base, mem_cons_of_mem b hbase, hr⟩, hsome⟩
        · refine Or.inr ⟨hrest (by rw [ho]; rfl) hall, hnone, ?_, ?_⟩
          · simp [hfiles, foundValues, ho, Outcome.value?]
          · simp [hmissing, missingKeys, ho, Outcome.isMissing]

lemma published_finish (sha256Hex : Bytes → String) {res : PhraseFilesResult}
    (h : res.error = none) :
    published (res.finish sha256Hex)
      = if maxPhraseFilesRawBytes < rawSize res.files then none
        else some (res.files, res.droppedBasenames) := by
  rw [PhraseFilesResult.finish]
  by_cases hraw : maxPhraseFilesRawBytes < rawSize res.files
  · simp only [if_pos hraw]
    rfl
  · simp [if_neg hraw, published, h]

lemma published_discoverFor (sha256Hex : Bytes → String) {waf : WafFiles}
    {directives : List (List Char)} {resolved : List RuleSetLists}
    (hrefs : checkRefs ns resolved = none)
    (hcustom : ∀ base ∈ scanPmFromFileBasenames directives, crs.isKnown base = false) :
    published (discoverFor sha256Hex crs ns waf directives resolved)
      = settleFiles (dataplaneOutcome ns) (waf.phraseListPolicy = "IgnoreUnknown")
        (scanPmFromFileBasenames directives) := by
  rw [discoverFor, hrefs]
  by_cases hscan : scanPmFromFileBasenames directives = []
  · simp only [if_pos hscan]
    rw [hscan, settleFiles, settle_nil]
    rfl
  simp only [if_neg hscan, resolveBasenames]
  rcases gather_custom hcustom {} with
    ⟨⟨base, hbase, hrefused⟩, r, hr⟩ | ⟨hall, hnone, hfiles, hmissing⟩
  · rw [hr, settleFiles, settle_eq_none hbase (Or.inl hrefused)]
    rfl
  · rw [hnone]
    simp only [hfiles, hmissing, nil_append]
    cases hkeys : missingKeys (dataplaneOutcome ns) (scanPmFromFileBasenames directives) with
    | nil =>
      have hfound : ∀ base ∈ scanPmFromFileBasenames directives,
          (dataplaneOutcome ns base).isMissing = false := by
        intro base hbase
        rw [← Bool.not_eq_true]
        exact (filter_eq_nil_iff.mp hkeys) base hbase
      rw [PhraseFilesResult.settleMissing, published_finish sha256Hex rfl, settleFiles,
        settle_eq_ite hall fun _ => hfound, hkeys]
      rfl
    | cons b missing =>
      rw [PhraseFilesResult.settleMissing]
      by_cases hpolicy : waf.phraseListPolicy = "IgnoreUnknown"
      · rw [if_pos hpolicy, published_finish sha256Hex rfl, settleFiles, decide_eq_true hpolicy,
          settle_eq_ite hall fun h => absurd h.symm Bool.false_ne_true, hkeys]
        rfl
      · have hb : b ∈ missingKeys (dataplaneOutcome ns) (scanPmFromFileBasenames directives) := by
          rw [hkeys]
          exact mem_cons_self
        obtain ⟨hbase, hmiss⟩ := mem_filter.mp hb
        rw [if_neg hpolicy, settleFiles,
          settle_eq_none hbase (Or.inr ⟨decide_eq_false hpolicy, hmiss⟩)]
        rfl

end

/-! ## The probe -/

/-- The files and the dropped basenames of a resolution that succeeds. -/
def resolvedFiles (probe : Except String DataFilesResult) :
    Option (List (List Char × Bytes) × List (List Char)) :=
  match probe with
  | .error _ => none
  | .ok df => some (df.files, df.droppedBasenames)

section
variable {cluster : String → Namespace} {ns policy : String} {bases : List (List Char)}

lemma resolveFile_eq (base : List Char) :
    (∃ e, resolveFile (some (clientListProvider cluster)) ns policy [] base = .error e
        ∧ ((probeOutcome (cluster ns) base).isRefused = true
          ∨ policy ≠ "IgnoreUnknown" ∧ (probeOutcome (cluster ns) base).isMissing = true))
      ∨ (resolveFile (some (clientListProvider cluster)) ns policy [] base
          = .ok (probeOutcome (cluster ns) base).value?
        ∧ (probeOutcome (cluster ns) base).isRefused = false
        ∧ (policy ≠ "IgnoreUnknown" → (probeOutcome (cluster ns) base).isMissing = false)) := by
  have hlookup : clientListProvider cluster ns base = lookup (cluster ns) base := rfl
  simp only [resolveFile, lookup_nil, hlookup, probeOutcome]
  by_cases hpolicy : policy = "IgnoreUnknown"
  · cases lookup (cluster ns) base with
    | error e => exact Or.inl ⟨e, rfl, Or.inl rfl⟩
    | ok found =>
      cases found with
      | notFound => exact Or.inr ⟨if_pos hpolicy, rfl, fun h => absurd hpolicy h⟩
      | notReady => exact Or.inr ⟨if_pos hpolicy, rfl, fun h => absurd hpolicy h⟩
      | ready body => exact Or.inr ⟨rfl, rfl, fun _ => rfl⟩
  · cases lookup (cluster ns) base with
    | error e => exact Or.inl ⟨e, rfl, Or.inl rfl⟩
    | ok found =>
      cases found with
      | notFound => exact Or.inl ⟨_, if_neg hpolicy, Or.inr ⟨hpolicy, rfl⟩⟩
      | notReady => exact Or.inl ⟨_, if_neg hpolicy, Or.inr ⟨hpolicy, rfl⟩⟩
      | ready body => exact Or.inr ⟨rfl, rfl, fun _ => rfl⟩

lemma mapM_resolveFile_error {base : List Char} (hbase : base ∈ bases) {e : String}
    (h : resolveFile (some (clientListProvider cluster)) ns policy [] base = .error e) :
    ∃ e', (bases.mapM fun b => (resolveFile (some (clientListProvider cluster)) ns policy [] b).map
      fun body => (b, body)) = .error e' := by
  cases hloop : bases.mapM fun b =>
      (resolveFile (some (clientListProvider cluster)) ns policy [] b).map fun body => (b, body) with
  | error e' => exact ⟨e', rfl⟩
  | ok bodies =>
    obtain ⟨body, hbody⟩ := exists_mapM_eq_ok_iff.mp ⟨bodies, hloop⟩ base hbase
    rw [h] at hbody
    cases hbody

lemma mapM_resolveFile_ok
    (h : ∀ base ∈ bases, resolveFile (some (clientListProvider cluster)) ns policy [] base
      = .ok (probeOutcome (cluster ns) base).value?) :
    (bases.mapM fun b => (resolveFile (some (clientListProvider cluster)) ns policy [] b).map
      fun body => (b, body))
      = .ok (bases.map fun b => (b, (probeOutcome (cluster ns) b).value?)) := by
  rw [mapM_eq_ok, forall₂_map_right_iff, forall₂_same]
  intro base hbase
  rw [h base hbase]
  rfl

lemma resolvedFiles_resolveDataFiles (hpolicy : policy ≠ "") (lines : List (List Char)) :
    resolvedFiles (resolveDataFiles (some (clientListProvider cluster)) ns policy lines [])
      = settleFiles (probeOutcome (cluster ns)) (policy = "IgnoreUnknown")
        (scanPmFromFileBasenames lines) := by
  rw [resolveDataFiles, if_neg hpolicy]
  generalize scanPmFromFileBasenames lines = bases
  by_cases hok : ∀ base ∈ bases, (probeOutcome (cluster ns) base).isRefused = false
      ∧ (policy ≠ "IgnoreUnknown" → (probeOutcome (cluster ns) base).isMissing = false)
  · have hvalues : ∀ base ∈ bases,
        resolveFile (some (clientListProvider cluster)) ns policy [] base
          = .ok (probeOutcome (cluster ns) base).value? := by
      intro base hbase
      rcases resolveFile_eq base with ⟨_, _, hfail⟩ | h
      · rcases hfail with hr | ⟨hp, hm⟩
        · rw [(hok base hbase).1] at hr
          cases hr
        · rw [(hok base hbase).2 hp] at hm
          cases hm
      · exact h.1
    have hfound : (bases.filterMap fun b => (probeOutcome (cluster ns) b).value?.map fun v => (b, v))
        = foundValues (probeOutcome (cluster ns)) bases := rfl
    have hdropped : bases.filter (fun b => (probeOutcome (cluster ns) b).value?.isNone)
        = missingKeys (probeOutcome (cluster ns)) bases := by
      refine filter_congr fun base hbase => ?_
      have hr := (hok base hbase).1
      cases ho : probeOutcome (cluster ns) base with
      | refused =>
        rw [ho] at hr
        cases hr
      | missing => rfl
      | found body => rfl
    rw [mapM_resolveFile_ok hvalues, settleFiles,
      settle_eq_ite (fun base hbase => (hok base hbase).1)
        fun hp base hbase => (hok base hbase).2 (of_decide_eq_false hp), totalSize_eq_rawSize]
    simp only [bind, Except.bind, filterMap_map, filter_map, map_map, Function.comp_def, map_id',
      hfound, hdropped, filter_nil, append_nil]
    by_cases hraw : maxPhraseFilesRawBytes
        < rawSize (foundValues (probeOutcome (cluster ns)) bases)
    · rw [if_pos hraw, if_pos hraw]
      rfl
    · rw [if_neg hraw, if_neg hraw]
      rfl
  · push Not at hok
    obtain ⟨base, hbase, hfail⟩ := hok
    rcases resolveFile_eq base with ⟨e, he, hwhy⟩ | ⟨_, hr, hm⟩
    · obtain ⟨e', he'⟩ := mapM_resolveFile_error hbase he
      rw [he', settleFiles, settle_eq_none hbase
        (hwhy.imp_right fun h => ⟨decide_eq_false h.1, h.2⟩)]
      rfl
    · obtain ⟨hp, hmissing⟩ := hfail hr
      exact absurd (hm hp) hmissing

end

end KubeWaf.Probe
