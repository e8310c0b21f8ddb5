import KubeWaf.Dataplane.Pipeline
import Mathlib

/-!
# The limits of a payload

The filter inflates at most `DirectivesMaxInflatedBytes` of directives, and a plugin configuration
of more than `MaxPluginJSONHardFailBytes` is said to fail hard. `Build` checks neither: the first
one is a limit of the reader only, and nothing reads the second one. A payload decodes to what it
was built from whenever it is short enough, `payloadOK_attach_iff`, and the sizes follow from those
that gzip gives to the directives and to the files.
-/

namespace KubeWaf.Dataplane

open Lib List
open DataFiles (Bytes CrsData PhraseFilesResult)

variable {directives : List Bytes} {plugin : PluginJSON}

/-! ## What a payload decodes to -/

/-- The lines of a text that are not empty. -/
def textLines (text : Bytes) : List Bytes := (text.splitOn 10).filter (· ≠ [])

/-- The lines of a list of directives that are not empty. -/
def nonEmptyLines (directives : List Bytes) : List Bytes := directives.flatMap textLines

/-- The writer never fails, and the reader inverts it. -/
def Gzip.Lossless (gzip : Gzip) : Prop :=
  ∀ raw, ∃ z, gzip.write raw = some z ∧ gzip.read z = some raw

/-- The texts that the directives of a plugin decode to. -/
def decodedDirectives (gzip : Gzip) (plugin : PluginJSON) : Option (List Bytes) :=
  match plugin.directives with
  | .plain directives => some directives
  | .encoded text => (decompressDirectivesGzipBase64 gzip text).map ([·])

/-- The body of an entry of `data_files` under an encoding. -/
def decodedDataFile (gzip : Gzip) (encoding : String) (entry : Bytes) : Option Bytes :=
  if encoding = directivesEncodingGzipBase64 then (Base64.decode entry).bind gzip.read
  else if encoding = "base64" then Base64.decode entry
  else none

/-- The length of the directives of a plugin, as they stand in it. -/
def DirectivesPayload.length : DirectivesPayload → ℕ
  | .plain directives => (directives.map List.length).sum
  | .encoded text => text.length

/-- The length of the directives and of the data files of a plugin, as they stand in it. -/
def PluginJSON.payloadLength (plugin : PluginJSON) : ℕ :=
  plugin.directives.length + (plugin.dataFiles.map (·.2.length)).sum

/-- A plugin that decodes to the directives and the files, within the limit of its length. -/
structure PayloadOK (gzip : Gzip) (directives : List Bytes) (files : List (String × Bytes))
    (plugin : PluginJSON) : Prop where
  directives_decode : ∃ texts, decodedDirectives gzip plugin = some texts ∧
    nonEmptyLines texts = nonEmptyLines directives
  files_decode :
    plugin.dataFiles.map (fun f => (f.1, decodedDataFile gzip plugin.dataFilesEncoding f.2))
      = files.map fun f => (f.1, some f.2)
  within : plugin.payloadLength ≤ maxPluginJSONHardFailBytes

/-! ## The sizes -/

/-- The length of the base64 text of `n` bytes. -/
def base64Length (n : ℕ) : ℕ := (n + 2) / 3 * 4

/-- The number of bytes that gzip makes of some bytes. -/
def Gzip.size (gzip : Gzip) (raw : Bytes) : ℕ := ((gzip.write raw).getD []).length

/-- The length of directives in a plugin. -/
def directivesLength (gzip : Gzip) (directives : List Bytes) : ℕ :=
  if shouldCompressDirectives directives then base64Length (gzip.size (joinDirectives directives))
  else (directives.map List.length).sum

/-- The length of data files in a plugin: they are compressed from 4 KiB on. -/
def dataFilesLength (gzip : Gzip) (files : List (String × Bytes)) : ℕ :=
  if 4 * 1024 ≤ (files.map (·.2.length)).sum then
    (files.map fun f => base64Length (gzip.size f.2)).sum
  else (files.map fun f => base64Length f.2.length).sum

/-- The sizes at which a payload is within both limits. -/
structure WithinLimits (gzip : Gzip) (directives : List Bytes) (files : List (String × Bytes)) :
    Prop where
  inflated : shouldCompressDirectives directives = true →
    (joinDirectives directives).length ≤ directivesMaxInflatedBytes
  encoded : directivesLength gzip directives + dataFilesLength gzip files
    ≤ maxPluginJSONHardFailBytes

/-! ## Lines -/

lemma textLines_append (s t : Bytes) : textLines (s ++ 10 :: t) = textLines s ++ textLines t := by
  have hsplit : (s ++ 10 :: t).splitOn 10 = s.splitOn 10 ++ t.splitOn 10 :=
    splitOnP_append_cons s t rfl
  rw [textLines, hsplit, filter_append]
  rfl

lemma textLines_intercalate (directives : List Bytes) :
    textLines ([10].intercalate directives) = nonEmptyLines directives := by
  induction directives with
  | nil => rfl
  | cons d ds ih =>
    cases ds with
    | nil =>
      rw [intercalate_singleton]
      exact (append_nil _).symm
    | cons e es =>
      have hlines : nonEmptyLines (d :: e :: es) = textLines d ++ nonEmptyLines (e :: es) := rfl
      rw [intercalate_cons_cons, append_assoc, singleton_append, textLines_append, ih, hlines]

lemma textLines_joinDirectives (directives : List Bytes) :
    textLines (joinDirectives directives) = nonEmptyLines directives := by
  rw [joinDirectives]
  split_ifs
  · rw [textLines_append, textLines_intercalate]
    exact append_nil _
  · rw [textLines_intercalate]

/-! ## Decoding -/

section Lossless
variable {gzip : Gzip} (hgzip : gzip.Lossless)
include hgzip

lemma compressBytesGzipBase64_eq (raw : Bytes) :
    ∃ z, gzip.write raw = some z ∧ gzip.read z = some raw ∧
      compressBytesGzipBase64 gzip raw = some (Base64.encode z) := by
  obtain ⟨z, hwrite, hread⟩ := hgzip raw
  refine ⟨z, hwrite, hread, ?_⟩
  rw [compressBytesGzipBase64, hwrite]
  rfl

lemma decompress_compress {encoded : Bytes}
    (h : compressDirectivesGzipBase64 gzip directives = some encoded) :
    decompressDirectivesGzipBase64 gzip encoded
      = if (joinDirectives directives).length ≤ directivesMaxInflatedBytes then
          some (joinDirectives directives)
        else none := by
  obtain ⟨z, _, hread, hcompress⟩ := compressBytesGzipBase64_eq hgzip (joinDirectives directives)
  have hencoded : Base64.encode z = encoded := Option.some.inj (hcompress.symm.trans h)
  have htake : directivesMaxInflatedBytes
        < ((joinDirectives directives).take (directivesMaxInflatedBytes + 1)).length ↔
      ¬(joinDirectives directives).length ≤ directivesMaxInflatedBytes := by
    rw [length_take]
    omega
  rw [decompressDirectivesGzipBase64, ← hencoded, Base64.decode_encode]
  simp only [Option.bind_eq_bind, Option.bind_some, hread, htake, ite_not]
  split_ifs with hle
  · rw [take_of_length_le (Nat.le_succ_of_le hle)]
  · rfl

lemma attachDirectives_compress (h : shouldCompressDirectives directives = true) :
    ∃ encoded, compressDirectivesGzipBase64 gzip directives = some encoded ∧
      encoded.length = directivesLength gzip directives ∧
      (attachDirectives gzip plugin directives).directives = .encoded encoded := by
  obtain ⟨z, hwrite, _, hcompress⟩ := compressBytesGzipBase64_eq hgzip (joinDirectives directives)
  refine ⟨Base64.encode z, hcompress, ?_, ?_⟩
  · rw [directivesLength, if_pos h, Gzip.size, hwrite, Base64.length_encode]
    rfl
  · rw [attachDirectives, h, if_neg Bool.false_ne_true.symm, compressDirectivesGzipBase64,
      hcompress]

omit hgzip in
lemma attachDirectives_plain (h : shouldCompressDirectives directives = false) :
    (attachDirectives gzip plugin directives).directives = .plain directives := by
  rw [attachDirectives, if_pos h]

lemma directives_decode_iff
    (h : plugin.directives = (attachDirectives gzip {} directives).directives) :
    (∃ texts, decodedDirectives gzip plugin = some texts ∧
        nonEmptyLines texts = nonEmptyLines directives) ↔
      (shouldCompressDirectives directives = true →
        (joinDirectives directives).length ≤ directivesMaxInflatedBytes) := by
  by_cases hcompress : shouldCompressDirectives directives = true
  · obtain ⟨encoded, hencoded, _, hattached⟩ := attachDirectives_compress hgzip hcompress
    rw [decodedDirectives, h, hattached]
    simp only [decompress_compress hgzip hencoded, hcompress, true_implies]
    by_cases hle : (joinDirectives directives).length ≤ directivesMaxInflatedBytes
    · have hlines : nonEmptyLines [joinDirectives directives] = nonEmptyLines directives :=
        (append_nil _).trans (textLines_joinDirectives directives)
      rw [if_pos hle]
      exact iff_of_true ⟨_, rfl, hlines⟩ hle
    · rw [if_neg hle]
      exact iff_of_false (fun ⟨_, hnone, _⟩ => nomatch hnone) hle
  · have hplain : (attachDirectives gzip {} directives).directives = .plain directives :=
      attachDirectives_plain (Bool.eq_false_iff.mpr hcompress)
    rw [decodedDirectives, h, hplain]
    exact iff_of_true ⟨_, rfl, rfl⟩ fun hc => absurd hc hcompress

lemma decodedDataFile_encode (useGzip : Bool) (body : Bytes) :
    decodedDataFile gzip (if useGzip then directivesEncodingGzipBase64 else "base64")
      (encodeDataFile gzip useGzip body) = some body := by
  cases useGzip with
  | false => exact Base64.decode_encode body
  | true =>
    obtain ⟨z, _, hread, hcompress⟩ := compressBytesGzipBase64_eq hgzip body
    have hentry : encodeDataFile gzip true body = Base64.encode z := by
      rw [encodeDataFile, if_pos rfl, hcompress]
      rfl
    rw [hentry, if_pos rfl, decodedDataFile, if_pos rfl, Base64.decode_encode]
    exact hread

lemma length_encodeDataFile (useGzip : Bool) (body : Bytes) :
    (encodeDataFile gzip useGzip body).length
      = base64Length (if useGzip then gzip.size body else body.length) := by
  cases useGzip with
  | false => exact Base64.length_encode body
  | true =>
    obtain ⟨z, hwrite, _, hcompress⟩ := compressBytesGzipBase64_eq hgzip body
    rw [encodeDataFile, if_pos rfl, hcompress, if_pos rfl, Gzip.size, hwrite]
    exact Base64.length_encode z

lemma attachDataFiles_eq {files : List (String × Bytes)} (h : files ≠ []) :
    attachDataFiles gzip plugin files
      = let useGzip : Bool := 4 * 1024 ≤ (files.map (·.2.length)).sum
        { plugin with
          dataFiles := files.map fun f => (f.1, encodeDataFile gzip useGzip f.2)
          dataFilesEncoding := if useGzip then directivesEncodingGzipBase64 else "base64" } := by
  have hall : ∀ f : String × Bytes, (compressBytesGzipBase64 gzip f.2).isSome = true := by
    intro f
    obtain ⟨z, _, _, hcompress⟩ := compressBytesGzipBase64_eq hgzip f.2
    rw [hcompress]
    rfl
  have hpos : 0 < files.length := length_pos_iff.mpr h
  rw [attachDataFiles, if_neg h]
  by_cases hgz : 4 * 1024 ≤ (files.map (·.2.length)).sum
  · simp [hgz, hall, hpos]
  · simp [hgz]

lemma attachDataFiles_directives (plugin : PluginJSON) (files : List (String × Bytes)) :
    (attachDataFiles gzip plugin files).directives = plugin.directives := by
  by_cases h : files = []
  · rw [attachDataFiles, if_pos h]
  · rw [attachDataFiles_eq hgzip h]

lemma files_decode (plugin : PluginJSON) (files : List (String × Bytes))
    (h : plugin.dataFiles = []) :
    (attachDataFiles gzip plugin files).dataFiles.map
        (fun f => (f.1, decodedDataFile gzip
          (attachDataFiles gzip plugin files).dataFilesEncoding f.2))
      = files.map fun f => (f.1, some f.2) := by
  by_cases hfiles : files = []
  · rw [attachDataFiles, if_pos hfiles, h, hfiles]
    rfl
  · rw [attachDataFiles_eq hgzip hfiles, map_map]
    refine map_congr_left fun f _ => ?_
    exact congrArg (Prod.mk f.1) (decodedDataFile_encode hgzip _ f.2)

lemma length_dataFiles (plugin : PluginJSON) (files : List (String × Bytes))
    (h : plugin.dataFiles = []) :
    ((attachDataFiles gzip plugin files).dataFiles.map (·.2.length)).sum
      = dataFilesLength gzip files := by
  by_cases hfiles : files = []
  · rw [attachDataFiles, if_pos hfiles, h, hfiles]
    rfl
  · have hlength : ∀ useGzip : Bool,
        ((files.map fun f => (f.1, encodeDataFile gzip useGzip f.2)).map (·.2.length))
          = files.map fun f => base64Length (if useGzip then gzip.size f.2 else f.2.length) := by
      intro useGzip
      rw [map_map]
      exact map_congr_left fun f _ => length_encodeDataFile hgzip useGzip f.2
    rw [attachDataFiles_eq hgzip hfiles, dataFilesLength]
    simp only [hlength, decide_eq_true_eq]
    split_ifs <;> rfl

lemma length_directives (plugin : PluginJSON) (directives : List Bytes) :
    (attachDirectives gzip plugin directives).directives.length
      = directivesLength gzip directives := by
  by_cases hcompress : shouldCompressDirectives directives = true
  · obtain ⟨encoded, _, hlength, hattached⟩ := attachDirectives_compress hgzip hcompress
    rw [hattached, ← hlength]
    rfl
  · rw [attachDirectives_plain (Bool.eq_false_iff.mpr hcompress), directivesLength,
      if_neg hcompress]
    rfl

omit hgzip in
lemma attachDirectives_dataFiles (directives : List Bytes) :
    (attachDirectives gzip {} directives).dataFiles = [] := by
  rw [attachDirectives]
  split_ifs
  · rfl
  · cases compressDirectivesGzipBase64 gzip directives <;> rfl

lemma payloadOK_attach_iff (directives : List Bytes) (files : List (String × Bytes)) :
    PayloadOK gzip directives files
        (attachDataFiles gzip (attachDirectives gzip {} directives) files) ↔
      WithinLimits gzip directives files := by
  have hdirectives := directives_decode_iff hgzip
    (attachDataFiles_directives hgzip (attachDirectives gzip {} directives) files)
  have hlength : (attachDataFiles gzip (attachDirectives gzip {} directives) files).payloadLength
      = directivesLength gzip directives + dataFilesLength gzip files := by
    rw [PluginJSON.payloadLength, attachDataFiles_directives hgzip, length_directives hgzip,
      length_dataFiles hgzip _ _ (attachDirectives_dataFiles directives)]
  constructor
  · intro h
    exact ⟨hdirectives.mp h.directives_decode, hlength ▸ h.within⟩
  · intro h
    exact ⟨hdirectives.mpr h.inflated,
      files_decode hgzip _ _ (attachDirectives_dataFiles directives), hlength ▸ h.encoded⟩

end Lossless

/-! ## What `Build` publishes -/

section Build
variable (crs : CrsData) (sha256Hex : Bytes → String) (waf : WAF) (reads : ClusterReads)
  (opts : BuildOptions)

/-- The rules that `Build` reads. -/
def ClusterReads.builtRules : List String := reads.rules.toOption.getD []

/-- The data files that `Build` resolves. -/
def resolvedFiles : PhraseFilesResult := phraseFilesOf crs sha256Hex waf reads reads.builtRules

/-- The list of directives that `Build` publishes. -/
def builtDirectives : List String :=
  directivesToBuild waf
    (if (resolvedFiles crs sha256Hex waf reads).droppedBasenames ≠ [] then [] else reads.builtRules)
    (withPhraseFiles (resolvedFiles crs sha256Hex waf reads) opts)

/-- The map of data files that `Build` publishes. -/
def builtDataFiles : List (String × Bytes) :=
  (withPhraseFiles (resolvedFiles crs sha256Hex waf reads) opts).phraseFiles

variable {crs} {sha256Hex} {waf} {reads} {opts} {gzip : Gzip} {p : PortableConfig}

lemma BuiltFrom.pluginJSON_eq (b : BuiltFrom gzip crs sha256Hex waf reads opts p) :
    p.pluginJSON = buildWAFPluginJSON gzip (builtDirectives crs sha256Hex waf reads opts)
      (builtDataFiles crs sha256Hex waf reads opts) := by
  have hrules : reads.builtRules = b.rules := by
    rw [ClusterReads.builtRules, b.rules_eq]
    rfl
  have hfiles : resolvedFiles crs sha256Hex waf reads = b.files := by
    rw [resolvedFiles, hrules, b.files_eq]
  -- the challenge and the discovery set other options
  obtain ⟨hmac, hchallenge⟩ := exists_withChallenge b.challenged_eq
  obtain ⟨provider, hdiscovery⟩ := exists_withDiscovery b.discovered_eq
  have hphrase : b.discovered.phraseFiles = opts.phraseFiles := by
    rw [hdiscovery, hchallenge]
  have hoverride : b.discovered.directivesOverride = opts.directivesOverride := by
    rw [hdiscovery, hchallenge]
  obtain ⟨challenge, _, hp⟩ := buildFromWAF_eq_ok b.built
  have hplugin : p.pluginJSON = buildWAFPluginJSON gzip
      (directivesToBuild waf (if b.files.droppedBasenames ≠ [] then [] else b.rules)
        (withPhraseFiles b.files b.discovered))
      (withPhraseFiles b.files b.discovered).phraseFiles :=
    (congrArg PortableConfig.pluginJSON hp).symm
  rw [hplugin, builtDirectives, builtDataFiles, hfiles, hrules]
  simp [directivesToBuild, withPhraseFiles, hphrase, hoverride]

end Build

/-! ## A cluster with one rule -/

def shopWAF : WAF := { ns := "shop", name := "waf" }

/-- The reads of a cluster with one rule. -/
def ruleReads (rule : String) : ClusterReads := { plainReads with rules := .ok [rule] }

section
variable {rule : String} (h : '@' ∉ rule.toList)
include h

lemma scan_rule :
    DataFiles.scanPmFromFileBasenames ((buildDirectives {} [rule]).map String.toList) = [] := by
  refine DataFiles.scan_eq_nil fun raw hraw => ?_
  have hcases : raw ∈ ["Include @kubewaf-defaults".toList, "SecRuleEngine On".toList,
      "SecDebugLogLevel 1".toList, rule.toList] := hraw
  simp only [mem_cons, not_mem_nil, or_false] at hcases
  rcases hcases with rfl | rfl | rfl | rfl
  · decide
  · decide
  · decide
  · exact DataFiles.referenced_eq_nil h

lemma resolvedFiles_rule :
    resolvedFiles plainOperator.crs plainOperator.sha256Hex shopWAF
        (ruleReads rule)
      = { directives := (buildDirectives {} [rule]).map String.toList
          conditionMessage := "no @pmFromFile/@ipMatchFromFile basenames in assembled SecLang" } :=
  if_pos (scan_rule h)

lemma build_rule :
    ∃ res, build plainOperator.gzip plainOperator.crs plainOperator.sha256Hex
        shopWAF (ruleReads rule) plainOptions true = .ok res := by
  -- no file is resolved, so what is left are the URL and the digest of the engine
  have hportable : buildPortable plainOperator.gzip plainOperator.crs plainOperator.sha256Hex
        shopWAF (ruleReads rule) plainOptions
      = buildWithFiles plainOperator.gzip shopWAF [rule]
        (resolvedFiles plainOperator.crs plainOperator.sha256Hex shopWAF
          (ruleReads rule))
        { plainOptions with detectedProvider := .known .envoyGateway } := rfl
  have hurl : firstNonEmpty "" plainOptions.defaultWasmHTTPURL ≠ "" := by decide
  have hsha : Go.trimSpace (firstNonEmpty "" plainOptions.defaultWasmSHA256) ≠ "" := by decide
  have hbuilt : ∃ p, buildWithFiles plainOperator.gzip shopWAF [rule]
        { directives := (buildDirectives {} [rule]).map String.toList
          conditionMessage := "no @pmFromFile/@ipMatchFromFile basenames in assembled SecLang" }
        { plainOptions with detectedProvider := .known .envoyGateway } = .ok p := by
    rw [buildWithFiles, if_neg (by rintro ⟨hrefused, _⟩; cases hrefused), buildFromWAF]
    exact ⟨_, (congrArg _ ((if_neg hurl).trans (if_neg hsha))).trans rfl⟩
  obtain ⟨p, hp⟩ := hbuilt
  rw [resolvedFiles_rule h, hp] at hportable
  exact ⟨⟨p, []⟩, build_eq_ok_iff.mpr ⟨rfl, fun _ => rfl, hportable⟩⟩

lemma builtDirectives_rule :
    builtDirectives plainOperator.crs plainOperator.sha256Hex shopWAF
        (ruleReads rule) plainOptions
      = ["Include @kubewaf-defaults", "SecRuleEngine On", "SecDebugLogLevel 1", rule] := by
  rw [builtDirectives, resolvedFiles_rule h]
  rfl

lemma builtDataFiles_rule :
    builtDataFiles plainOperator.crs plainOperator.sha256Hex shopWAF
        (ruleReads rule) plainOptions = [] := by
  rw [builtDataFiles, resolvedFiles_rule h]
  rfl

end

lemma length_le_joinDirectives {d : Bytes} (h : d ∈ directives) :
    d.length ≤ (joinDirectives directives).length := by
  have hjoined : ([10].intercalate directives).length ≤ (joinDirectives directives).length := by
    rw [joinDirectives]
    split_ifs
    · exact (prefix_append _ _).length_le
    · exact le_refl _
  refine Nat.le_trans ?_ hjoined
  clear hjoined
  induction directives with
  | nil => exact absurd h not_mem_nil
  | cons e es ih =>
    cases es with
    | nil =>
      rw [intercalate_singleton, mem_singleton.mp h]
    | cons f fs =>
      rw [intercalate_cons_cons, length_append, length_append]
      rcases mem_cons.mp h with rfl | hd
      · omega
      · have := ih hd
        omega

lemma length_le_directivesLength {d : Bytes} (h : d ∈ directives) :
    d.length ≤ directivesLength plainOperator.gzip directives := by
  rw [directivesLength]
  split_ifs
  · have hjoin : d.length ≤ plainOperator.gzip.size (joinDirectives directives) :=
      length_le_joinDirectives h
    rw [base64Length]
    omega
  · exact single_le_sum (fun _ _ => Nat.zero_le _) _ (mem_map_of_mem h)

/-- A rule with a pattern of `n` letters. -/
def patternRule (n : ℕ) : String :=
  "SecRule ARGS \"" ++ (String.ofList (List.replicate n 'a') ++ "\" \"id:1,phase:1,deny\"")

lemma at_notMem_patternRule (n : ℕ) : '@' ∉ (patternRule n).toList := by
  have hpattern : '@' ∉ (String.ofList (List.replicate n 'a')).toList := by
    rw [String.toList_ofList]
    exact fun h => nomatch eq_of_mem_replicate h
  rw [patternRule, String.toList_append, String.toList_append, mem_append, mem_append,
    not_or, not_or]
  exact ⟨by decide, hpattern, by decide⟩

lemma le_length_patternRule (n : ℕ) : n ≤ (patternRule n).toUTF8.toList.length := by
  have hpattern := Go.length_le_utf8ByteSize (List.replicate n 'a')
  rw [length_replicate] at hpattern
  rw [Go.length_toUTF8_toList, patternRule, String.utf8ByteSize_append, String.utf8ByteSize_append]
  omega

lemma patternRule_exceeds {n : ℕ} (h : maxPluginJSONHardFailBytes < n) :
    ∃ res, build plainOperator.gzip plainOperator.crs plainOperator.sha256Hex shopWAF
        (ruleReads (patternRule n)) plainOptions true = .ok res ∧
      ¬PayloadOK plainOperator.gzip
        ((builtDirectives plainOperator.crs plainOperator.sha256Hex shopWAF
          (ruleReads (patternRule n)) plainOptions).map fun d => d.toUTF8.toList)
        (builtDataFiles plainOperator.crs plainOperator.sha256Hex shopWAF
          (ruleReads (patternRule n)) plainOptions)
        res.portable.pluginJSON := by
  obtain ⟨res, hres⟩ := build_rule (at_notMem_patternRule n)
  obtain ⟨b⟩ := buildPortable_eq_ok (build_eq_ok_iff.mp hres).2.2
  refine ⟨res, hres, ?_⟩
  rw [b.pluginJSON_eq, buildWAFPluginJSON, payloadOK_attach_iff fun raw => ⟨raw, rfl, rfl⟩,
    builtDirectives_rule (at_notMem_patternRule n)]
  intro hlimits
  have hmem : (patternRule n).toUTF8.toList ∈ ["Include @kubewaf-defaults", "SecRuleEngine On",
      "SecDebugLogLevel 1", patternRule n].map fun d => d.toUTF8.toList :=
    mem_map.mpr ⟨patternRule n, by simp, rfl⟩
  have hlong := le_length_patternRule n
  have hle := length_le_directivesLength hmem
  have hlimit := hlimits.encoded
  omega

end KubeWaf.Dataplane
