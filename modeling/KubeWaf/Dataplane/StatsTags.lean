import KubeWaf.Lib.Leftmost
import KubeWaf.Webhook.MetricLabels

/-!
# Tags of the Envoy stats

`internal/dataplane/observability/stats_tags.go`. The name of a stat carries its labels; a fixed
list of expressions takes them out again, each one at its leftmost match, which is cut out of the
name before the next expression is tried.
-/

namespace KubeWaf.Dataplane

open Lib Webhook

/-- `StatTag`, with the compiled expression: it captures the second group, and the match is the
whole expression. -/
structure StatTag where
  name : String
  re : Matcher Char (List Char)

/-- `[0-9A-Za-z.-]` -/
def tagChar (c : Char) : Bool := isAlnum c || c == '.' || c == '-'

/-- `[0-9]` -/
def digitChar (c : Char) : Bool := '0' ≤ c && c ≤ '9'

/-- `[0-9a-z.:_-]` -/
def ownerChar (c : Char) : Bool :=
  digitChar c || ('a' ≤ c && c ≤ 'z') || c == '.' || c == ':' || c == '_' || c == '-'

/-- The phases that the expression of `phase` lists. -/
def phases : List (List Char) :=
  ["http_request_headers".toList, "http_request_body".toList, "http_response_headers".toList,
    "http_response_body".toList, "http_logging".toList, "unknown".toList]

/-- `StatsTags`, in the order in which they are applied. -/
def statsTags : List StatTag :=
  [⟨"tag", literal "_tag=".toList (run tagChar)⟩,
    ⟨"phase", literal "_phase=".toList (oneOf phases)⟩,
    ⟨"rule_id", literal "_ruleid=".toList (run digitChar)⟩,
    ⟨"severity", literal "_severity=".toList (run digitChar)⟩,
    ⟨"waf_namespace", literal "_waf_namespace=".toList (run tagChar)⟩,
    ⟨"waf_name", literal "_waf_name=".toList (run tagChar)⟩,
    ⟨"engine", literal "_engine=".toList (run tagChar)⟩,
    ⟨"owner", literal "_owner=".toList (lazyRun ownerChar '_')⟩]

/-- `ExtractedStat`. The map of the tags is given by its entries; the value, which `ExtractTags`
does not set, is left out. -/
structure ExtractedStat where
  fullName : List Char
  extractedName : List Char
  tags : List (String × List Char)

def ExtractedStat.tag (stat : ExtractedStat) (name : String) : Option (List Char) :=
  stat.tags.lookup name

/-- The body of the loop of `ExtractTags`. -/
def extractTag (out : ExtractedStat) (t : StatTag) : ExtractedStat :=
  match leftmost t.re out.extractedName with
  | none => out
  | some (before, val, after) =>
    { out with
      extractedName := before ++ after
      tags := if val = [] then out.tags else out.tags ++ [(t.name, val)] }

def extractTags (full : List Char) : ExtractedStat :=
  statsTags.foldl extractTag ⟨full, full, []⟩

/-! ## One step -/

lemma extractTag_of_none {out : ExtractedStat} {t : StatTag}
    (h : leftmost t.re out.extractedName = none) : extractTag out t = out := by
  rw [extractTag, h]

lemma foldl_extractTag_of_none {out : ExtractedStat} (ts : List StatTag)
    (h : ∀ t ∈ ts, leftmost t.re out.extractedName = none) : ts.foldl extractTag out = out := by
  induction ts with
  | nil => rfl
  | cons t ts ih =>
    rw [List.foldl_cons, extractTag_of_none (h t List.mem_cons_self)]
    exact ih fun t' ht' => h t' (List.mem_cons_of_mem _ ht')

lemma extractTag_of_some {out : ExtractedStat} {t : StatTag} {before val after : List Char}
    (h : leftmost t.re out.extractedName = some (before, val, after)) (hval : val ≠ []) :
    extractTag out t
      = { out with extractedName := before ++ after, tags := out.tags ++ [(t.name, val)] } := by
  rw [extractTag, h]
  simp [if_neg hval]

lemma tag_foldl_extractTag {name : String} {val : List Char} (ts : List StatTag)
    (out : ExtractedStat) (h : out.tag name = some val) :
    (ts.foldl extractTag out).tag name = some val := by
  induction ts generalizing out with
  | nil => exact h
  | cons t ts ih =>
    refine ih _ ?_
    rw [extractTag]
    cases leftmost t.re out.extractedName with
    | none => exact h
    | some r =>
      rw [ExtractedStat.tag] at h ⊢
      by_cases hval : r.2.1 = []
      · simp [if_pos hval, h]
      · simp [if_neg hval, List.lookup_append, h]

end KubeWaf.Dataplane
