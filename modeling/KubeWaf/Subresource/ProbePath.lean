import KubeWaf.Lib.ExceptLemmas
import KubeWaf.Lib.GoQuote
import KubeWaf.Lib.Lines

/-!
# The paths of probes

`ParseProbePath` and `ParseWAFSubresourcePath` of `internal/subresourceapi`. Both cut a path into
the same segments, so what is a probe to one is nothing to the other, and a probe URL is read back
as it was written (`probePath_correct`). A text is a list of bytes, as in `Lib.GoQuote`.
-/

namespace KubeWaf.Subresource

open Lib List

inductive ParentKind where
  | secRule | ruleSet | waf
deriving DecidableEq

def ParentKind.resource : ParentKind → List Char
  | .secRule => "secrules".toList
  | .ruleSet => "rulesets".toList
  | .waf => "wafs".toList

inductive PathReason where
  | invalidProbePath | notFound | secActionProbesDeferred
deriving DecidableEq

structure PathError where
  reason : PathReason
  message : List Char
deriving DecidableEq

structure ProbeRoute where
  parentKind : ParentKind
  ns : List Char
  name : List Char
  appPath : List Char
  rawQuery : List Char
deriving DecidableEq

inductive WAFSubresource where
  | directives | metrics | traces
deriving DecidableEq

def WAFSubresource.text : WAFSubresource → List Char
  | .directives => "directives".toList
  | .metrics => "metrics".toList
  | .traces => "traces".toList

structure WAFRoute where
  ns : List Char
  name : List Char
  subresource : WAFSubresource
  extra : List Char
deriving DecidableEq

/-- `"/apis/" + Group + "/" + Version` -/
def apiPrefix : List Char := "/apis/subresources.kubewaf.io/v1alpha1".toList

def splitPath (p : List Char) : List (List Char) :=
  let p := Go.trimPrefix p ['/']
  if p = [] then [] else p.splitOn '/'

/-- The path that both parsers cut into segments. -/
def routedPath (urlPath : List Char) : List Char :=
  Go.trimPrefix (Go.trimSuffix urlPath ['/']) apiPrefix

def invalid (message : String) : PathError := ⟨.invalidProbePath, message.toList⟩

section
variable (isPrint : ℕ → Bool)

/-- The kind of the parent, by its resource. -/
def parentKindOf (resource : List Char) : Except PathError ParentKind :=
  if resource = "secrules".toList then .ok .secRule
  else if resource = "rulesets".toList then .ok .ruleSet
  else if resource = "wafs".toList then .ok .waf
  else if resource = "secactions".toList then
    .error ⟨.secActionProbesDeferred, "SecAction probes deferred to v1.1".toList⟩
  else .error ⟨.invalidProbePath, "unknown parent resource ".toList ++ Go.quote isPrint resource⟩

/-- The path of the application, from the segments behind `probes`. -/
def appPathOf (hadTrailingSlash : Bool) : List (List Char) → Except PathError (List Char)
  | [] => .ok ['/']
  | http :: segs =>
    if http ≠ "http".toList then
      .error ⟨.notFound, "only /probes/http/\x7bpath\x7d suffix is supported".toList⟩
    else if segs = [] then .ok ['/']
    else if [] ∈ segs then .error (invalid "empty path segment")
    else .ok ('/' :: ['/'].intercalate segs ++ if hadTrailingSlash then ['/'] else [])

def parseProbePath (urlPath rawQuery : List Char) : Except PathError ProbeRoute :=
  let hadTrailingSlash := 1 < urlPath.length && Go.hasSuffix urlPath ['/']
  let path := routedPath urlPath
  if path = [] then .error (invalid "empty path")
  else
    match splitPath path with
    | namespaces :: ns :: resource :: name :: probes :: suffix =>
      if [] ∈ [namespaces, ns, resource, name, probes] then .error (invalid "empty path segment")
      else if namespaces ≠ "namespaces".toList then .error (invalid "expected namespaces")
      else if probes ≠ "probes".toList then .error (invalid "expected probes subresource")
      else do
        let kind ← parentKindOf isPrint resource
        let appPath ← appPathOf hadTrailingSlash suffix
        return ⟨kind, ns, name, appPath, rawQuery⟩
    | _ => .error (invalid "path too short")

/-- The subresource of a WAF, by its name. -/
def wafSubresourceOf (sub : List Char) : Except PathError WAFSubresource :=
  if sub = "directives".toList then .ok .directives
  else if sub = "metrics".toList then .ok .metrics
  else if sub = "traces".toList then .ok .traces
  else .error ⟨.notFound, "unknown WAF subresource ".toList ++ Go.quote isPrint sub⟩

/-- What stands behind the subresource; only traces have something there. -/
def extraOf (subresource : WAFSubresource) (suffix : List (List Char)) :
    Except PathError (List Char) :=
  if suffix = [] then .ok []
  else if subresource ≠ .traces then .error ⟨.notFound, "unexpected path suffix".toList⟩
  else if [] ∈ suffix then .error (invalid "empty path segment")
  else .ok (['/'].intercalate suffix)

def parseWAFSubresourcePath (urlPath : List Char) : Except PathError WAFRoute :=
  match splitPath (routedPath urlPath) with
  | namespaces :: ns :: resource :: name :: sub :: suffix =>
    if [] ∈ [namespaces, ns, resource, name, sub] then .error (invalid "empty path segment")
    else if namespaces ≠ "namespaces".toList then .error (invalid "expected namespaces")
    else if resource ≠ "wafs".toList then .error (invalid "expected wafs")
    else do
      let subresource ← wafSubresourceOf isPrint sub
      let extra ← extraOf subresource suffix
      return ⟨ns, name, subresource, extra⟩
  | _ => .error (invalid "path too short")

end

/-! ## The URLs of a probe -/

/-- A segment of a path. -/
def Segment (s : List Char) : Prop := s ≠ [] ∧ '/' ∉ s

/-- Segments, each behind a slash. -/
def slashed (segs : List (List Char)) : List Char := segs.flatMap ('/' :: ·)

/-- The path of an application: a slash, and segments with slashes between them and, for a path
with a trailing slash, behind the last one. -/
def applicationPath (segs : List (List Char)) (trailingSlash : Bool) : List Char :=
  '/' :: ['/'].intercalate segs ++ if trailingSlash && !segs.isEmpty then ['/'] else []

def probeSegments (kind : ParentKind) (ns name : List Char) : List (List Char) :=
  ["namespaces".toList, ns, kind.resource, name, "probes".toList]

/-- The URLs under which a probe with a path of the application is reached: behind the API prefix
or without it, and for the path `/` also without the path and without `http`. -/
def probeURLs (kind : ParentKind) (ns name appPath : List Char) : List (List Char) :=
  [apiPrefix, []].flatMap fun pre =>
    let probes := pre ++ slashed (probeSegments kind ns name)
    (probes ++ "/http".toList ++ appPath) ::
      if appPath = ['/'] then [probes, probes ++ ['/'], probes ++ "/http".toList] else []

/-- The segments of a URL behind the API prefix. -/
def urlSegments (urlPath : List Char) : List (List Char) :=
  (Go.trimPrefix (Go.trimPrefix urlPath apiPrefix) ['/']).splitOn '/'

section Slashed
variable {segs more : List (List Char)} {pre path ns name : List Char} {kind : ParentKind}

lemma slashed_cons (seg : List Char) (segs : List (List Char)) :
    slashed (seg :: segs) = '/' :: ['/'].intercalate (seg :: segs) := by
  induction segs generalizing seg with
  | nil => simp [slashed]
  | cons seg' segs ih =>
    rw [slashed, flatMap_cons, ← slashed, ih, intercalate_cons_cons, append_assoc]
    rfl

lemma splitPath_slashed (hne : segs ≠ []) (h : ∀ s ∈ segs, Segment s) :
    splitPath (slashed segs) = segs := by
  obtain ⟨seg, segs, rfl⟩ := exists_cons_of_ne_nil hne
  have htrim : Go.trimPrefix (slashed (seg :: segs)) ['/'] = ['/'].intercalate (seg :: segs) := by
    rw [slashed_cons, ← singleton_append, Go.trimPrefix_append]
  have hsegs : ['/'].intercalate (seg :: segs) ≠ [] := by
    obtain ⟨c, t, hc⟩ := exists_cons_of_ne_nil (h seg mem_cons_self).1
    cases segs <;> simp [hc]
  rw [splitPath, htrim, if_neg hsegs, splitOn_intercalate _ (fun s hs => (h s hs).2) hne]

lemma getLast?_slashed (hne : segs ≠ []) (h : ∀ s ∈ segs, Segment s) :
    ∃ c, (slashed segs).getLast? = some c ∧ c ≠ '/' := by
  obtain ⟨init, last, rfl⟩ := (eq_nil_or_concat' segs).resolve_left hne
  obtain ⟨hlast, hslash⟩ := h last (by simp)
  refine ⟨last.getLast hlast, ?_, fun hc => hslash (hc ▸ getLast_mem hlast)⟩
  rw [slashed, flatMap_append, flatMap_singleton, getLast?_append, getLast?_cons,
    getLast?_eq_some_getLast hlast]
  rfl

lemma hasSuffix_slash (h : ∃ c, path.getLast? = some c ∧ c ≠ '/') (pre : List Char)
    (slash : Bool) :
    Go.hasSuffix (pre ++ path ++ if slash then ['/'] else []) ['/'] = slash := by
  obtain ⟨c, hlast, hc⟩ := h
  rw [Bool.eq_iff_iff, Go.hasSuffix_singleton]
  cases slash with
  | true => simp
  | false => simp [getLast?_append, hlast, hc]

lemma routedPath_slashed (hpre : pre ∈ [apiPrefix, []]) (hhead : segs.head? = "namespaces".toList)
    (h : ∀ s ∈ segs, Segment s) (slash : Bool) :
    routedPath (pre ++ slashed segs ++ if slash then ['/'] else []) = slashed segs := by
  obtain ⟨more, rfl⟩ := head?_eq_some_iff.mp hhead
  have htrim : Go.trimSuffix (pre ++ slashed ("namespaces".toList :: more) ++
      if slash then ['/'] else []) ['/'] = pre ++ slashed ("namespaces".toList :: more) := by
    cases slash with
    | true => exact Go.trimSuffix_append _ _
    | false =>
      have hnot := hasSuffix_slash (getLast?_slashed (cons_ne_nil _ _) h) pre false
      rw [Go.trimSuffix, hnot, if_neg Bool.false_ne_true, if_neg Bool.false_ne_true, append_nil]
  rw [routedPath, htrim]
  rcases mem_pair.mp hpre with rfl | rfl
  · exact Go.trimPrefix_append _ _
  · -- a path that starts with `namespaces` does not start with the API prefix
    rw [nil_append, Go.trimPrefix, if_neg]
    exact Bool.false_ne_true

lemma parseProbePath_slashed (isPrint : ℕ → Bool) (hpre : pre ∈ [apiPrefix, []])
    (hns : Segment ns) (hname : Segment name) (hmore : ∀ s ∈ more, Segment s) (slash : Bool)
    (query : List Char) :
    parseProbePath isPrint
        (pre ++ slashed (probeSegments kind ns name ++ more) ++ if slash then ['/'] else []) query =
      (appPathOf slash more).map fun appPath => ⟨kind, ns, name, appPath, query⟩ := by
  have hresource : Segment kind.resource := by
    cases kind <;> exact ⟨by decide, by decide⟩
  have hsegs : ∀ s ∈ probeSegments kind ns name ++ more, Segment s := by
    simp only [probeSegments, forall_mem_append, forall_mem_cons]
    exact ⟨⟨⟨by decide, by decide⟩, hns, hresource, hname, ⟨by decide, by decide⟩, by simp⟩, hmore⟩
  have hlong : 1 < (pre ++ slashed (probeSegments kind ns name ++ more) ++
      if slash then ['/'] else []).length := by
    simp [probeSegments, slashed]
    omega
  have hfixed : [] ∉ probeSegments kind ns name :=
    fun h => (hsegs [] (mem_append_left more h)).1 rfl
  have hkind : parentKindOf isPrint kind.resource = .ok kind := by cases kind <;> rfl
  have hne : probeSegments kind ns name ++ more ≠ [] := cons_ne_nil _ _
  rw [parseProbePath, decide_eq_true hlong, Bool.true_and, routedPath_slashed hpre rfl hsegs,
    hasSuffix_slash (getLast?_slashed hne hsegs) pre slash, splitPath_slashed hne hsegs]
  simp only [probeSegments, cons_append, nil_append, hkind] at hfixed ⊢
  rw [if_neg (by rw [slashed_cons]; exact cons_ne_nil _ _), if_neg hfixed, if_neg (by simp),
    if_neg (by simp)]
  cases appPathOf slash more <;> rfl

end Slashed

/-! ## What is accepted -/

lemma parts_of_parseProbePath {isPrint : ℕ → Bool} {url query : List Char} {route : ProbeRoute}
    (h : parseProbePath isPrint url query = .ok route) :
    ∃ ns resource name suffix, splitPath (routedPath url) =
        "namespaces".toList :: ns :: resource :: name :: "probes".toList :: suffix ∧
      [] ∉ (splitPath (routedPath url)).take 5 := by
  rw [parseProbePath] at h
  split_ifs at h
  split at h
  · rename_i namespaces ns resource name probes suffix hparts
    split_ifs at h with hempty hnamespaces hprobes
    rw [not_not] at hnamespaces hprobes
    refine ⟨ns, resource, name, suffix, by rw [hparts, hnamespaces, hprobes], ?_⟩
    rw [hparts]
    exact hempty
  · cases h

lemma parts_of_parseWAFSubresourcePath {isPrint : ℕ → Bool} {url : List Char} {route : WAFRoute}
    (h : parseWAFSubresourcePath isPrint url = .ok route) :
    ∃ namespaces ns resource name sub suffix, splitPath (routedPath url) =
      namespaces :: ns :: resource :: name :: WAFSubresource.text sub :: suffix := by
  rw [parseWAFSubresourcePath] at h
  split at h
  · rename_i namespaces ns resource name sub suffix hparts
    split_ifs at h
    obtain ⟨subresource, hsub, _⟩ := bind_eq_ok.mp h
    have htext : sub = subresource.text := by
      unfold wafSubresourceOf at hsub
      split_ifs at hsub with hd hm ht
      · exact hd.trans (congrArg WAFSubresource.text (Except.ok.inj hsub))
      · exact hm.trans (congrArg WAFSubresource.text (Except.ok.inj hsub))
      · exact ht.trans (congrArg WAFSubresource.text (Except.ok.inj hsub))
    exact ⟨namespaces, ns, resource, name, subresource, suffix, by rw [hparts, htext]⟩
  · cases h

lemma splitOn_slash (q : List Char) : (q ++ ['/']).splitOn '/' = q.splitOn '/' ++ [[]] :=
  splitOnP_append_cons q [] rfl

lemma splitPath_eq (path : List Char) : splitPath path = [] ∨
    splitPath path = (Go.trimPrefix path ['/']).splitOn '/' := by
  rw [splitPath]
  split_ifs
  · exact .inl rfl
  · exact .inr rfl

/-- The segments that are routed are those of the URL, apart from an empty one at the end. -/
lemma splitPath_routedPath (url : List Char) : (splitPath (routedPath url)).length < 5 ∨
    (splitPath (routedPath url)).take 5 = (urlSegments url).take 5 := by
  by_cases hslash : Go.hasSuffix url ['/'] = true
  · obtain ⟨u, rfl⟩ := getLast?_eq_some_iff.mp (Go.hasSuffix_singleton.mp hslash)
    have hrouted : routedPath (u ++ ['/']) = Go.trimPrefix u apiPrefix := by
      rw [routedPath, Go.trimSuffix_append]
    -- the API prefix does not end with a slash
    rw [hrouted, urlSegments, Go.trimPrefix_concat (by decide)]
    generalize Go.trimPrefix u apiPrefix = path
    cases path with
    | nil => exact .inl (by decide)
    | cons c path =>
      have htrim : Go.trimPrefix (c :: path ++ ['/']) ['/'] =
          Go.trimPrefix (c :: path) ['/'] ++ ['/'] := by
        rcases eq_or_ne '/' c with rfl | hc
        · simp [Go.trimPrefix]
        · simp [Go.trimPrefix, hc]
      rw [htrim, splitOn_slash]
      rcases splitPath_eq (c :: path) with h | h
      · exact .inl (by rw [h]; decide)
      · rcases lt_or_ge (splitPath (c :: path)).length 5 with hlength | hlength
        · exact .inl hlength
        · rw [h] at hlength ⊢
          exact .inr (take_append_of_le_length hlength).symm
  · have hrouted : routedPath url = Go.trimPrefix url apiPrefix := by
      rw [routedPath, Go.trimSuffix, if_neg hslash]
    rw [hrouted, urlSegments]
    rcases splitPath_eq (Go.trimPrefix url apiPrefix) with h | h
    · exact .inl (by rw [h]; decide)
    · exact .inr (by rw [h])

/-- A probe URL is read back as it was written, a path with an empty segment among the first five is
rejected, and no path is both a probe and a subresource of a WAF. -/
theorem probePath_correct (isPrint : ℕ → Bool) :
    (∀ kind ns name segs trailingSlash query, Segment ns → Segment name →
      (∀ s ∈ segs, Segment s) → ∀ url ∈ probeURLs kind ns name (applicationPath segs trailingSlash),
        parseProbePath isPrint url query =
          .ok ⟨kind, ns, name, applicationPath segs trailingSlash, query⟩) ∧
    (∀ url query, [] ∈ (urlSegments url).take 5 →
      ∃ e, parseProbePath isPrint url query = .error e) ∧
    ∀ url query probe waf, parseProbePath isPrint url query = .ok probe →
      parseWAFSubresourcePath isPrint url ≠ .ok waf := by
  refine ⟨?_, ?_, ?_⟩
  · intro kind ns name segs trailingSlash query hns hname hsegs url hurl
    obtain ⟨pre, hpre, hurl⟩ := mem_flatMap.mp hurl
    have hparse := fun more hmore slash =>
      @parseProbePath_slashed more pre ns name kind isPrint hpre hns hname hmore slash query
    have hslashed : ∀ a b, slashed (a ++ b) = slashed a ++ slashed b := fun a b => flatMap_append
    have hhttp : ∀ s ∈ ["http".toList], Segment s :=
      forall_mem_singleton.mpr ⟨by decide, by decide⟩
    rcases mem_cons.mp hurl with rfl | hurl
    · cases segs with
      | nil =>
        have h := hparse ["http".toList] hhttp true
        rw [hslashed, ← append_assoc] at h
        cases trailingSlash <;> exact h
      | cons seg segs =>
        have hempty : [] ∉ seg :: segs := fun h => (hsegs [] h).1 rfl
        have h := hparse ("http".toList :: seg :: segs)
          (forall_mem_cons.mpr ⟨hhttp _ mem_cons_self, hsegs⟩) trailingSlash
        rw [appPathOf, if_neg (not_not.mpr rfl), if_neg (cons_ne_nil _ _), if_neg hempty, hslashed,
          slashed, slashed, flatMap_cons, ← slashed, ← slashed, slashed_cons seg] at h
        simpa [applicationPath, Except.map] using h
    · split_ifs at hurl with happ
      · simp only [mem_cons, not_mem_nil, or_false] at hurl
        rw [happ]
        rcases hurl with rfl | rfl | rfl
        · have h := hparse [] (by simp) false
          rwa [if_neg Bool.false_ne_true, append_nil, append_nil] at h
        · have h := hparse [] (by simp) true
          rwa [append_nil] at h
        · have h := hparse ["http".toList] hhttp false
          rwa [if_neg Bool.false_ne_true, append_nil, hslashed, ← append_assoc] at h
      · cases hurl
  · intro url query hempty
    cases hparse : parseProbePath isPrint url query with
    | error e => exact ⟨e, rfl⟩
    | ok route =>
      obtain ⟨ns, resource, name, suffix, hparts, hfixed⟩ := parts_of_parseProbePath hparse
      rcases splitPath_routedPath url with hlength | htake
      · rw [hparts] at hlength
        simp only [length_cons] at hlength
        omega
      · exact absurd (htake ▸ hempty) hfixed
  · intro url query probe waf hprobe hwaf
    obtain ⟨_, _, _, _, hparts, _⟩ := parts_of_parseProbePath hprobe
    obtain ⟨_, _, _, _, sub, _, hparts'⟩ := parts_of_parseWAFSubresourcePath hwaf
    rw [hparts] at hparts'
    have hsub : "probes".toList = sub.text := by
      simp only [List.cons.injEq] at hparts'
      exact hparts'.2.2.2.2.1
    cases sub <;> exact absurd hsub (by decide)

theorem probePath_search :
    probeURLs .waf "team".toList "shop".toList "/search/".toList =
      ["/apis/subresources.kubewaf.io/v1alpha1/namespaces/team/wafs/shop/probes/http/search/".toList,
        "/namespaces/team/wafs/shop/probes/http/search/".toList] ∧
    (∀ url ∈ probeURLs .waf "team".toList "shop".toList "/search/".toList,
      parseProbePath (fun _ => true) url "q=1".toList =
        .ok ⟨.waf, "team".toList, "shop".toList, "/search/".toList, "q=1".toList⟩) ∧
    ∃ e, parseProbePath (fun _ => true) "/namespaces//wafs/shop/probes".toList [] = .error e :=
  ⟨by decide,
    (probePath_correct fun _ => true).1 .waf _ _ ["search".toList] true _ ⟨by decide, by decide⟩
      ⟨by decide, by decide⟩ (forall_mem_singleton.mpr ⟨by decide, by decide⟩),
    (probePath_correct fun _ => true).2.1 _ _ (by decide)⟩

end KubeWaf.Subresource
