import KubeWaf.Lib.Json

/-!
# Filtering traces

`filterJaegerToWAF` of `internal/subresourceapi/query.go`: the spans of a Jaeger response that are
of one WAF, with their processes. A span or a process has the identity of a WAF in its tags.

The filter keeps a span if its tags or those of its process are of the WAF. A span that is tagged
for another WAF is kept as well, if its process is of this one; and a process without an id is
dropped although its spans are kept, so that they are dropped when the result is filtered again.
Without such spans the filter isolates the WAFs (`filter_isolates_iff`).
-/

namespace KubeWaf.Subresource

open Lib List

variable {fields : Json.Fields} {body : Option Json} {sp : Json}

/-! ## Tags -/

/-- `jaegerTag`; a value that is not there is a `nil`, as is a `null`. -/
structure JaegerTag where
  key : String
  value : Json

section Filter

-- `fmt.Sprint` of a value decoded into an `any`, where a number of it is not out of range
variable (sprint : Json → Option String)

/-- `json.Unmarshal` into a `jaegerTag`. -/
def decodeTag (v : Json) : Option JaegerTag := do
  let fields ← v.structFields
  let key ← (Json.field "key" fields).elim (some "") Json.toText
  let value := (Json.field "value" fields).getD .null
  let _ ← sprint value
  return { key, value }

/-- `json.Unmarshal` into a `struct` with `Tags []jaegerTag`. -/
def decodeTags (v : Json) : Option (List JaegerTag) := do
  let fields ← v.structFields
  let items ← (Json.field "tags" fields).elim (some []) Json.toItems
  items.mapM (decodeTag sprint)

def tagString (v : Json) : String :=
  match v with
  | .string s => s
  | v => (sprint v).getD ""

def identityFromTags (tags : List JaegerTag) : String × String :=
  tags.foldl (fun (ns, name) t =>
    if t.key = "waf.namespace" ∨ t.key = "waf_namespace" then (tagString sprint t.value, name)
    else if t.key = "waf.name" ∨ t.key = "waf_name" then (ns, tagString sprint t.value)
    else (ns, name)) ("", "")

def processRawMatchesWAF (p : Json) (ns name : String) : Bool :=
  match decodeTags sprint p with
  | none => false
  | some tags => identityFromTags sprint tags = (ns, name)

def spanRawMatchesWAF (sp : Json) (ns name : String) : Bool :=
  match decodeTags sprint sp with
  | none => false
  | some tags => identityFromTags sprint tags = (ns, name)

/-- `spanProcessID(sp)`: empty, if it is not there or not a string. -/
def spanProcessID (sp : Json) : String :=
  ((sp.structFields.bind (Json.field "processID")).bind Json.toText).getD ""

/-! ## Traces -/

/-- The value of a field, decoded by `decode`; nothing where that fails. -/
def decodeField {α : Type} (fields : Json.Fields) (key : String) (decode : Json → Option α)
    (nothing : α) : α :=
  (fields[key]?.bind decode).getD nothing

/-- The map `procs` of a trace. -/
def traceProcesses (fields : Json.Fields) : Json.Fields :=
  decodeField fields "processes" Json.toFields ∅

/-- The slice `spans` of a trace. -/
def traceSpans (fields : Json.Fields) : List Json := decodeField fields "spans" Json.toItems []

/-- The map `keepProc`. -/
def keepProc (procs : Json.Fields) (ns name : String) (id : String) : Bool :=
  procs[id]?.any fun p => processRawMatchesWAF sprint p ns name

/-- The slice `keptSpans`. -/
def keptSpans (fields : Json.Fields) (ns name : String) : List Json :=
  (traceSpans fields).filter fun sp =>
    keepProc sprint (traceProcesses fields) ns name (spanProcessID sp)
      || spanRawMatchesWAF sprint sp ns name

/-- The map `used`. -/
def usedProc (spans : List Json) (id : String) : Bool :=
  spans.any fun sp => spanProcessID sp ≠ "" && spanProcessID sp = id

/-- The map `newProcs`. -/
def newProcs (fields : Json.Fields) (ns name : String) : Json.Fields :=
  (traceProcesses fields).filter fun id _ =>
    usedProc (keptSpans sprint fields ns name) id
      && keepProc sprint (traceProcesses fields) ns name id

/-- The fields of the trace that is returned. -/
def filteredFields (fields : Json.Fields) (ns name : String) : Json.Fields :=
  (fields.insert "spans" (.array (keptSpans sprint fields ns name))).insert "processes"
    (.ofFields (newProcs sprint fields ns name))

def filterTraceRaw (ns name : String) (tr : Json) : Option Json :=
  tr.toFields.bind fun fields =>
    if (keptSpans sprint fields ns name).isEmpty then none
    else some (.ofFields (filteredFields sprint fields ns name))

/-- `{"data":[]}` -/
def noTraces : Json := .object [("data", .array [])]

/-- The traces of a body, and its fields; `none` where the body has none that can be read. -/
def bodyTraces (body : Json) : Option (Json.Fields × List Json) :=
  body.toFields.bind fun root =>
    match root["data"]? with
    | some (.array traces) => some (root, traces)
    | _ => none

/-- `filterJaegerToWAF(body, ns, name)`; a body that is no JSON at all is `none`. -/
def filterJaegerToWAF (body : Option Json) (ns name : String) : Json × Bool :=
  match body.bind bodyTraces with
  | none => (noTraces, false)
  | some (root, traces) =>
    let kept := traces.filterMap (filterTraceRaw sprint ns name)
    (.ofFields (root.insert "data" (.array kept)), !kept.isEmpty)

/-! ## What a WAF may see -/

def isIdentityTag (key : String) : Bool :=
  key = "waf.namespace" || key = "waf_namespace" || key = "waf.name" || key = "waf_name"

/-- The identity in the tags of a span or a process, if it has tags of one. -/
def ownIdentity (v : Json) : Option (String × String) :=
  (decodeTags sprint v).bind fun tags =>
    if tags.any fun t => isIdentityTag t.key then some (identityFromTags sprint tags) else none

/-- A span that is tagged for another WAF. -/
def isForeign (ns name : String) (sp : Json) : Bool :=
  (ownIdentity sprint sp).any fun identity => identity ≠ (ns, name)

/-- A span of the WAF: its own tags say so, or it has none and those of its process do. -/
def belongs (ns name : String) (fields : Json.Fields) (sp : Json) : Bool :=
  ownIdentity sprint sp = some (ns, name)
    || (ownIdentity sprint sp = none
      && (traceProcesses fields)[spanProcessID sp]?.bind (ownIdentity sprint) = some (ns, name))

/-- The fields of the traces of a body. -/
def readTraces (body : Option Json) : List Json.Fields :=
  ((body.bind bodyTraces).elim [] Prod.snd).map fun tr => tr.toFields.getD ∅

/-- The spans of each trace that is returned. -/
def returnedSpans (ns name : String) (body : Option Json) : List (List Json) :=
  (readTraces (some (filterJaegerToWAF sprint body ns name).1)).map traceSpans

/-- The filter returns the spans of the WAF and nothing of another one, and filtering the result
again changes nothing. -/
structure Isolates (ns name : String) (body : Option Json) : Prop where
  exact : returnedSpans sprint ns name body =
    ((readTraces body).map fun fields =>
      (traceSpans fields).filter (belongs sprint ns name fields)).filter fun spans => !spans.isEmpty
  spans : ∀ fields ∈ readTraces (some (filterJaegerToWAF sprint body ns name).1),
    ∀ sp ∈ traceSpans fields, isForeign sprint ns name sp = false
  processes : ∀ fields ∈ readTraces (some (filterJaegerToWAF sprint body ns name).1),
    ∀ (id : String) (p : Json), (traceProcesses fields)[id]? = some p →
      ownIdentity sprint p = some (ns, name)
  again : readTraces (some (filterJaegerToWAF sprint
      (some (filterJaegerToWAF sprint body ns name).1) ns name).1)
    = readTraces (some (filterJaegerToWAF sprint body ns name).1)

/-- Two bodies that differ only in spans that are tagged for another WAF and in processes that are
not of this one. -/
def SameView (ns name : String) (body body' : Option Json) : Prop :=
  List.Forall₂ (fun fields fields' =>
    (traceSpans fields).filter (fun sp => !isForeign sprint ns name sp)
        = (traceSpans fields').filter (fun sp => !isForeign sprint ns name sp) ∧
      ∀ id : String, (traceProcesses fields)[id]?.filter
          (fun p => ownIdentity sprint p = some (ns, name))
        = (traceProcesses fields')[id]?.filter fun p => ownIdentity sprint p = some (ns, name))
    (readTraces body) (readTraces body')

/-- No span of a process of the WAF is tagged for another WAF, and none of them, unless it is
tagged for this one, is without the id of its process. -/
def CleanSpans (ns name : String) (body : Option Json) : Prop :=
  ∀ fields ∈ readTraces body, ∀ sp ∈ traceSpans fields,
    keepProc sprint (traceProcesses fields) ns name (spanProcessID sp) = true →
    isForeign sprint ns name sp = false ∧
      (spanProcessID sp = "" → ownIdentity sprint sp = some (ns, name))

end Filter

/-! ## Identities -/

section Identity

variable {sprint : Json → Option String} {ns name : String}

lemma identityFromTags_of_none {tags : List JaegerTag}
    (h : ¬tags.any (fun t => isIdentityTag t.key) = true) :
    identityFromTags sprint tags = ("", "") := by
  rw [identityFromTags]
  induction tags with
  | nil => rfl
  | cons t tags ih =>
    simp only [any_cons, Bool.or_eq_true, not_or, isIdentityTag, decide_eq_true_eq] at h ih
    obtain ⟨⟨⟨⟨h₁, h₂⟩, h₃⟩, h₄⟩, hrest⟩ := h
    simp only [foldl_cons, h₁, h₂, h₃, h₄, or_self, if_false]
    exact ih hrest

lemma spanRawMatchesWAF_iff (hns : ns ≠ "") (v : Json) :
    spanRawMatchesWAF sprint v ns name = true ↔ ownIdentity sprint v = some (ns, name) := by
  rw [spanRawMatchesWAF, ownIdentity]
  cases decodeTags sprint v with
  | none => simp
  | some tags =>
    simp only [Option.bind_some, decide_eq_true_eq]
    by_cases hany : tags.any (fun t => isIdentityTag t.key) = true
    · rw [if_pos hany, Option.some.injEq]
    · rw [if_neg hany, identityFromTags_of_none hany]
      simp [Ne.symm hns]

lemma keepProc_iff (hns : ns ≠ "") (procs : Json.Fields) (id : String) :
    keepProc sprint procs ns name id = true ↔
      procs[id]?.bind (ownIdentity sprint) = some (ns, name) := by
  rw [keepProc]
  cases procs[id]? with
  | none => simp
  | some p => exact spanRawMatchesWAF_iff hns p

lemma isForeign_eq_false_iff :
    isForeign sprint ns name sp = false ↔
      ownIdentity sprint sp = none ∨ ownIdentity sprint sp = some (ns, name) := by
  rw [isForeign]
  cases ownIdentity sprint sp with
  | none => simp
  | some identity => simp

lemma belongs_iff (hns : ns ≠ "") :
    belongs sprint ns name fields sp = true ↔
      spanRawMatchesWAF sprint sp ns name = true ∨
        isForeign sprint ns name sp = false ∧
          keepProc sprint (traceProcesses fields) ns name (spanProcessID sp) = true := by
  rw [belongs, spanRawMatchesWAF_iff hns, keepProc_iff hns, isForeign_eq_false_iff]
  simp only [Bool.or_eq_true, Bool.and_eq_true, decide_eq_true_eq]
  tauto

end Identity

/-! ## The traces that are returned -/

section Returned

variable {sprint : Json → Option String} {ns name : String}

lemma traceSpans_filteredFields (fields : Json.Fields) :
    traceSpans (filteredFields sprint fields ns name) = keptSpans sprint fields ns name := by
  have hlookup : (filteredFields sprint fields ns name)["spans"]?
      = some (.array (keptSpans sprint fields ns name)) := by
    rw [filteredFields, Std.ExtTreeMap.getElem?_insert, if_neg (by decide),
      Std.ExtTreeMap.getElem?_insert_self]
  rw [traceSpans, decodeField, hlookup]
  rfl

lemma traceProcesses_filteredFields (fields : Json.Fields) :
    traceProcesses (filteredFields sprint fields ns name) = newProcs sprint fields ns name := by
  have hlookup : (filteredFields sprint fields ns name)["processes"]?
      = some (.ofFields (newProcs sprint fields ns name)) := by
    rw [filteredFields, Std.ExtTreeMap.getElem?_insert_self]
  rw [traceProcesses, decodeField, hlookup, Option.bind_some, Json.toFields_ofFields]
  rfl

lemma newProcs_getElem? (fields : Json.Fields) (id : String) :
    (newProcs sprint fields ns name)[id]? =
      if usedProc (keptSpans sprint fields ns name) id
          && keepProc sprint (traceProcesses fields) ns name id
      then (traceProcesses fields)[id]? else none := by
  rw [newProcs, Std.ExtTreeMap.getElem?_filter']
  cases (traceProcesses fields)[id]? with
  | none => simp
  | some p => rw [Option.filter_some]

lemma keepProc_newProcs (fields : Json.Fields) (id : String) :
    keepProc sprint (newProcs sprint fields ns name) ns name id =
      (usedProc (keptSpans sprint fields ns name) id
        && keepProc sprint (traceProcesses fields) ns name id) := by
  rw [keepProc, newProcs_getElem?]
  cases hused : usedProc (keptSpans sprint fields ns name) id with
  | false => rfl
  | true =>
    rw [Bool.true_and]
    cases hkeep : keepProc sprint (traceProcesses fields) ns name id with
    | false => rfl
    | true => exact hkeep

lemma readTraces_filter (body : Option Json) :
    readTraces (some (filterJaegerToWAF sprint body ns name).1) =
      ((readTraces body).filter fun fields => !(keptSpans sprint fields ns name).isEmpty).map
        fun fields => filteredFields sprint fields ns name := by
  rw [filterJaegerToWAF, readTraces.eq_def body]
  cases body.bind bodyTraces with
  | none => rfl
  | some r =>
    obtain ⟨root, traces⟩ := r
    have hdata : bodyTraces (.ofFields (root.insert "data"
        (.array (traces.filterMap (filterTraceRaw sprint ns name)))))
        = some (root.insert "data" (.array (traces.filterMap (filterTraceRaw sprint ns name))),
          traces.filterMap (filterTraceRaw sprint ns name)) := by
      rw [bodyTraces, Json.toFields_ofFields, Option.bind_some, Std.ExtTreeMap.getElem?_insert_self]
    simp only [readTraces, Option.bind_some, hdata, Option.elim_some]
    clear hdata
    induction traces with
    | nil => rfl
    | cons tr traces ih =>
      rw [filterMap_cons, filterTraceRaw, map_cons, filter_cons]
      cases tr.toFields with
      | none => exact ih
      | some fields =>
        rw [Option.bind_some]
        by_cases hempty : (keptSpans sprint fields ns name).isEmpty = true
        · simp only [hempty, if_true, Option.getD_some, Bool.not_true, Bool.false_eq_true, if_false]
          exact ih
        · simp [hempty, Json.toFields_ofFields, ih]

lemma mem_readTraces_filter
    (h : fields ∈ readTraces (some (filterJaegerToWAF sprint body ns name).1)) :
    ∃ fields₀ ∈ readTraces body, fields = filteredFields sprint fields₀ ns name := by
  rw [readTraces_filter] at h
  obtain ⟨fields₀, hmem, rfl⟩ := mem_map.mp h
  exact ⟨fields₀, (mem_filter.mp hmem).1, rfl⟩

lemma filteredFields_mem (h : fields ∈ readTraces body)
    (hsp : sp ∈ keptSpans sprint fields ns name) :
    filteredFields sprint fields ns name
      ∈ readTraces (some (filterJaegerToWAF sprint body ns name).1) := by
  rw [readTraces_filter]
  refine mem_map.mpr ⟨fields, mem_filter.mpr ⟨h, ?_⟩, rfl⟩
  cases hkept : keptSpans sprint fields ns name with
  | nil =>
    rw [hkept] at hsp
    cases hsp
  | cons sp' spans => rfl

/-! ## Filtering again -/

/-- The spans of a trace that a second pass keeps as the first one does. -/
def StableSpans (sprint : Json → Option String) (ns name : String) (fields : Json.Fields) : Prop :=
  ∀ sp ∈ keptSpans sprint fields ns name,
    keepProc sprint (newProcs sprint fields ns name) ns name (spanProcessID sp) = true ∨
      spanRawMatchesWAF sprint sp ns name = true

lemma keptSpans_filteredFields (h : StableSpans sprint ns name fields) :
    keptSpans sprint (filteredFields sprint fields ns name) ns name
      = keptSpans sprint fields ns name := by
  rw [keptSpans, traceSpans_filteredFields, traceProcesses_filteredFields, filter_eq_self]
  intro sp hsp
  rw [Bool.or_eq_true]
  exact h sp hsp

lemma filteredFields_idem (h : StableSpans sprint ns name fields) :
    filteredFields sprint (filteredFields sprint fields ns name) ns name
      = filteredFields sprint fields ns name := by
  have hprocs : newProcs sprint (filteredFields sprint fields ns name) ns name
      = newProcs sprint fields ns name := by
    refine Std.ExtTreeMap.ext_getElem? fun id => ?_
    rw [newProcs_getElem?, keptSpans_filteredFields h, traceProcesses_filteredFields,
      keepProc_newProcs, newProcs_getElem?]
    cases usedProc (keptSpans sprint fields ns name) id with
    | false => rfl
    | true =>
      cases keepProc sprint (traceProcesses fields) ns name id with
      | false => rfl
      | true => rfl
  refine Std.ExtTreeMap.ext_getElem? fun key => ?_
  rw [filteredFields, hprocs, keptSpans_filteredFields h]
  simp only [filteredFields, Std.ExtTreeMap.getElem?_insert]
  split
  · rfl
  · split
    · rfl
    · rfl

lemma stable_of_clean (hns : ns ≠ "") (hclean : CleanSpans sprint ns name body)
    (hfields : fields ∈ readTraces body) : StableSpans sprint ns name fields := by
  intro sp hsp
  obtain ⟨hmem, hkept⟩ := mem_filter.mp hsp
  by_cases hmatch : spanRawMatchesWAF sprint sp ns name = true
  · exact .inr hmatch
  · left
    have hkeep : keepProc sprint (traceProcesses fields) ns name (spanProcessID sp) = true := by
      rw [Bool.or_eq_true] at hkept
      exact hkept.resolve_right hmatch
    have hid : spanProcessID sp ≠ "" := by
      intro hid
      exact hmatch ((spanRawMatchesWAF_iff hns sp).mpr ((hclean fields hfields sp hmem hkeep).2 hid))
    have hused : usedProc (keptSpans sprint fields ns name) (spanProcessID sp) = true :=
      any_eq_true.mpr ⟨sp, hsp, by simp [hid]⟩
    rw [keepProc_newProcs, hused, hkeep]
    rfl

/-! ## Isolation -/

lemma keptSpans_of_clean (hns : ns ≠ "") (hclean : CleanSpans sprint ns name body)
    (hfields : fields ∈ readTraces body) :
    keptSpans sprint fields ns name
      = (traceSpans fields).filter (belongs sprint ns name fields) := by
  rw [keptSpans]
  refine filter_congr fun sp hsp => ?_
  rw [Bool.eq_iff_iff, Bool.or_eq_true, belongs_iff hns]
  constructor
  · rintro (hkeep | hmatch)
    · exact .inr ⟨(hclean fields hfields sp hsp hkeep).1, hkeep⟩
    · exact .inl hmatch
  · rintro (hmatch | ⟨_, hkeep⟩)
    · exact .inr hmatch
    · exact .inl hkeep

lemma returnedSpans_eq (body : Option Json) :
    returnedSpans sprint ns name body =
      ((readTraces body).map fun fields => keptSpans sprint fields ns name).filter
        fun spans => !spans.isEmpty := by
  rw [returnedSpans, readTraces_filter, map_map, filter_map]
  exact map_congr_left fun fields _ => traceSpans_filteredFields fields

lemma isolates_of_clean (hns : ns ≠ "") (hclean : CleanSpans sprint ns name body) :
    Isolates sprint ns name body := by
  refine ⟨?_, ?_, ?_, ?_⟩
  · rw [returnedSpans_eq]
    refine congrArg _ (map_congr_left fun fields hfields => ?_)
    exact keptSpans_of_clean hns hclean hfields
  · intro fields hfields sp hsp
    obtain ⟨fields₀, hfields₀, rfl⟩ := mem_readTraces_filter hfields
    rw [traceSpans_filteredFields, keptSpans_of_clean hns hclean hfields₀] at hsp
    rcases (belongs_iff hns).mp (mem_filter.mp hsp).2 with hmatch | ⟨hforeign, _⟩
    · exact isForeign_eq_false_iff.mpr (.inr ((spanRawMatchesWAF_iff hns sp).mp hmatch))
    · exact hforeign
  · intro fields hfields id p hp
    obtain ⟨fields₀, _, rfl⟩ := mem_readTraces_filter hfields
    rw [traceProcesses_filteredFields, newProcs_getElem?] at hp
    split at hp
    · rename_i hkept
      have hkeep := (keepProc_iff hns _ id).mp (Bool.and_eq_true_iff.mp hkept).2
      rw [hp] at hkeep
      exact hkeep
    · cases hp
  · rw [readTraces_filter (some _)]
    -- every returned trace is kept by the second pass, as it is
    have hstable : ∀ fields ∈ readTraces (some (filterJaegerToWAF sprint body ns name).1),
        (keptSpans sprint fields ns name).isEmpty = false ∧
          filteredFields sprint fields ns name = fields := by
      intro fields hfields
      rw [readTraces_filter] at hfields
      obtain ⟨fields₀, hmem, rfl⟩ := mem_map.mp hfields
      obtain ⟨hfields₀, hne⟩ := mem_filter.mp hmem
      have hstable := stable_of_clean hns hclean hfields₀
      rw [keptSpans_filteredFields hstable]
      exact ⟨Bool.not_eq_true' _ ▸ hne, filteredFields_idem hstable⟩
    rw [filter_eq_self.mpr fun fields hfields => by rw [(hstable fields hfields).1]; rfl]
    exact (map_congr_left fun fields hfields => (hstable fields hfields).2).trans
      (map_id' _)

lemma clean_of_isolates (hns : ns ≠ "") (h : Isolates sprint ns name body) :
    CleanSpans sprint ns name body := by
  intro fields hfields sp hsp hkeep
  have hkept : sp ∈ keptSpans sprint fields ns name :=
    mem_filter.mpr ⟨hsp, by rw [hkeep]; rfl⟩
  have hreturned := filteredFields_mem hfields hkept
  have hsp' : sp ∈ traceSpans (filteredFields sprint fields ns name) := by
    rw [traceSpans_filteredFields]
    exact hkept
  refine ⟨h.spans _ hreturned sp hsp', fun hid => ?_⟩
  -- the second pass keeps the trace as it is, so that it keeps the span
  have hagain := h.again
  rw [readTraces_filter (some _)] at hagain
  have hall : ∀ fields' ∈ readTraces (some (filterJaegerToWAF sprint body ns name).1),
      (!(keptSpans sprint fields' ns name).isEmpty) = true := by
    have hlength := congrArg List.length hagain
    rw [length_map] at hlength
    exact length_filter_eq_length_iff.mp hlength
  rw [filter_eq_self.mpr hall] at hagain
  have hsame := map_inj_left.mp (hagain.trans (map_id' _).symm) _ hreturned
  have hsp'' := hsp'
  rw [← hsame, traceSpans_filteredFields] at hsp''
  have hkeep' := (mem_filter.mp hsp'').2
  rw [traceProcesses_filteredFields, keepProc_newProcs, hid] at hkeep'
  have hunused : usedProc (keptSpans sprint fields ns name) "" = false := by
    rw [usedProc, any_eq_false]
    intro sp' _
    by_cases hid' : spanProcessID sp' = ""
    · simp [hid']
    · simp [hid']
  rw [hunused, Bool.false_and, Bool.false_or] at hkeep'
  exact (spanRawMatchesWAF_iff hns sp).mp hkeep'

lemma filter_belongs_eq (hns : ns ≠ "") (fields : Json.Fields) :
    (traceSpans fields).filter (belongs sprint ns name fields) =
      ((traceSpans fields).filter fun sp => !isForeign sprint ns name sp).filter
        (belongs sprint ns name fields) := by
  rw [filter_filter]
  refine filter_congr fun sp _ => ?_
  rw [Bool.eq_iff_iff, Bool.and_eq_true, Bool.not_eq_true']
  refine ⟨fun hbelongs => ⟨hbelongs, ?_⟩, fun h => h.1⟩
  rcases (belongs_iff hns).mp hbelongs with hmatch | ⟨hforeign, _⟩
  · exact isForeign_eq_false_iff.mpr (.inr ((spanRawMatchesWAF_iff hns sp).mp hmatch))
  · exact hforeign

lemma belongs_of_sameView (hns : ns ≠ "") {body' : Option Json}
    (h : SameView sprint ns name body body') :
    ((readTraces body).map fun fields =>
        (traceSpans fields).filter (belongs sprint ns name fields)) =
      (readTraces body').map fun fields =>
        (traceSpans fields).filter (belongs sprint ns name fields) := by
  rw [SameView] at h
  generalize readTraces body = traces, readTraces body' = traces' at h ⊢
  induction h with
  | nil => rfl
  | cons hview _ ih =>
    obtain ⟨hspans, hprocs⟩ := hview
    rw [map_cons, map_cons, ih, filter_belongs_eq hns, hspans, filter_belongs_eq hns]
    refine congrArg (· :: _) (filter_congr fun sp _ => ?_)
    have hkeep : ∀ (procs : Json.Fields) (id : String),
        procs[id]?.bind (ownIdentity sprint) = some (ns, name) ↔
          (procs[id]?.filter fun p => ownIdentity sprint p = some (ns, name)).isSome := by
      intro procs id
      cases procs[id]? with
      | none => simp
      | some p => simp [Option.filter_some]
    rw [Bool.eq_iff_iff, belongs_iff hns, belongs_iff hns, keepProc_iff hns, keepProc_iff hns,
      hkeep, hkeep, hprocs]

end Returned

/-- The tags of the WAF `shop/name`. -/
def wafTags (name : String) : String × Json :=
  ("tags", .array [
    .object [("key", .string "waf.namespace"), ("value", .string "shop")],
    .object [("key", .string "waf.name"), ("value", .string name)]])

/-- A response with one trace of one process, of the WAF `shop/web`. -/
def oneProcess (spans : List Json) : Json :=
  .object [("data", .array [.object [
    ("processes", .object [("p1", .object [wafTags "web"])]),
    ("spans", .array spans)]])]

/-- A span of the process without tags of its own. -/
def plainSpan : Json := .object [("processID", .string "p1")]

/-- A span of the process that is tagged for the WAF `shop/api`. -/
def foreignSpan : Json := .object [("processID", .string "p1"), wafTags "api"]

/-- A span of another process that is tagged for the WAF `shop/api`. -/
def otherSpan : Json := .object [("processID", .string "p2"), wafTags "api"]

lemma cleanSpans_oneProcess {sprint : Json → Option String} {spans : List Json}
    (h : ∀ sp ∈ spans, spanProcessID sp = "p1" → ownIdentity sprint sp = none) :
    CleanSpans sprint "shop" "web" (some (oneProcess spans)) := by
  intro fields hfields sp hsp hkeep
  obtain rfl := mem_singleton.mp hfields
  have hsp : sp ∈ spans := hsp
  have hkeep : keepProc sprint (.ofList [("p1", Json.object [wafTags "web"])]) "shop" "web"
      (spanProcessID sp) = true := hkeep
  have hid : spanProcessID sp = "p1" := by
    by_contra hid
    rw [keepProc, Std.ExtTreeMap.ofList_singleton, Std.ExtTreeMap.getElem?_insert,
      if_neg fun heq => hid (Std.LawfulEqOrd.eq_of_compare heq).symm] at hkeep
    cases hkeep
  refine ⟨isForeign_eq_false_iff.mpr (.inl (h sp hsp hid)), fun hempty => ?_⟩
  rw [hempty] at hid
  exact absurd hid (by decide)

/-- A response whose process has an empty id. -/
def unnamedProcess : Json :=
  .object [("data", .array [.object [
    ("processes", .object [("", .object [wafTags "web"])]),
    ("spans", .array [.object []])]])]

end KubeWaf.Subresource
