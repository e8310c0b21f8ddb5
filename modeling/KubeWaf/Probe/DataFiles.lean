import KubeWaf.DataFiles.Discover

/-!
# Data files of a probe

`internal/probeassemble/datafiles.go`. The probe looks its lists up in its own way: over all lists
of the namespace, with typed reads of the ConfigMaps. A list that is not Ready counts as found,
and a PhraseList that is found hides the IPLists of its file name.
-/

namespace KubeWaf.Probe

open Lib DataFiles

/-! ## Lists -/

def listFileName (l : DataList) : List Char :=
  if l.fileName ≠ [] then l.fileName else l.statusFileName

/-- What `pickReadyPhraseList` and `pickReadyIPList` find. -/
inductive Pick where
  | absent
  | notReady
  | ready (l : DataList)
  deriving DecidableEq

/-- `pickReadyPhraseList` and `pickReadyIPList`: the loop over the lists of the file name fails at
the second one that is Ready. -/
def pickReady (kind : String) (ns : Namespace) (items : List DataList) (basename : List Char) :
    Except String Pick :=
  let named := items.filter fun l => listFileName l = basename
  match named.filter (·.ready) with
  | [] => .ok (if named = [] then .absent else .notReady)
  | [l] => .ok (.ready l)
  | _ :: _ :: _ => .error (conflict kind ns basename)

/-- `readConfigMapKey` of the probe. -/
def readConfigMapKey : Namespace → ConfigMapKeyRef → Except String Bytes :=
  readConfigMapKeyWith id

/-- `resolvePhraseListBody` and `resolveIPListBody` of the probe. -/
def resolveBody (kind : String) (ns : Namespace) : DataList → Except String Bytes :=
  resolveBodyWith (readConfigMapKey ns) kind ns

/-! ## Lookup -/

/-- The results `body`, `ready` and `found` of `Lookup`. -/
inductive ListBody where
  | notFound
  | notReady
  | ready (body : Bytes)
  deriving DecidableEq

/-- A list that is Ready: an empty body counts as not Ready. -/
def readyBody (kind : String) (ns : Namespace) (l : DataList) : Except String ListBody :=
  match resolveBody kind ns l with
  | .error e => .error e
  | .ok [] => .ok .notReady
  | .ok (b :: body) => .ok (.ready (b :: body))

/-- `Lookup` of the `ClientListProvider`, in the namespace that the client reads. -/
def lookup (ns : Namespace) (basename : List Char) : Except String ListBody :=
  match pickReady "PhraseList" ns ns.phraseLists basename with
  | .error e => .error e
  | .ok (.ready l) => readyBody "PhraseList" ns l
  | .ok .notReady => .ok .notReady
  | .ok .absent =>
    match pickReady "IPList" ns ns.ipLists basename with
    | .error e => .error e
    | .ok (.ready l) => readyBody "IPList" ns l
    | .ok .notReady => .ok .notReady
    | .ok .absent => .ok .notFound

/-! ## `ResolveDataFiles` -/

/-- `ListBodyProvider`: a lookup by namespace and basename. -/
abbrev ListBodyProvider := String → List Char → Except String ListBody

/-- The `ClientListProvider`, with `cluster` for the namespaces that the client reads. -/
def clientListProvider (cluster : String → Namespace) : ListBodyProvider :=
  fun ns basename => lookup (cluster ns) basename

def phraseListPolicyFromWAF (p : String) : String :=
  if p = "IgnoreUnknown" then "IgnoreUnknown" else "FailClosed"

structure DataFilesResult where
  files : List (List Char × Bytes)
  droppedBasenames : List (List Char)
  rawBytes : ℕ
  effectiveLines : List (List Char)
  deriving DecidableEq

/-- The body of the loop over the basenames: the body of a file, or `none` where it is dropped. -/
def resolveFile (provider : Option ListBodyProvider) (ns policy : String)
    (overrides : List (List Char × Bytes)) (base : List Char) : Except String (Option Bytes) :=
  match overrides.lookup base with
  | some body => .ok (some body)
  | none =>
    let unresolved (e : String) : Except String (Option Bytes) :=
      if policy = "IgnoreUnknown" then .ok none else .error (e ++ ": " ++ String.ofList base)
    match provider with
    | none => unresolved "DataFileUnresolved"
    | some lookup =>
      match lookup ns base with
      | .error e => .error e
      | .ok .notFound => unresolved "DataFileUnresolved"
      | .ok .notReady => unresolved "PhraseListNotReady"
      | .ok (.ready body) => .ok (some body)

def resolveDataFiles (provider : Option ListBodyProvider) (ns policy : String)
    (directiveLines : List (List Char)) (overrides : List (List Char × Bytes)) :
    Except String DataFilesResult := do
  let policy := if policy = "" then "FailClosed" else policy
  let bodies ← (scanPmFromFileBasenames directiveLines).mapM fun base =>
    (resolveFile provider ns policy overrides base).map fun body => (base, body)
  let resolved := bodies.filterMap fun (base, body) => body.map fun b => (base, b)
  let dropped := (bodies.filter fun (_, body) => body.isNone).map (·.1)
  -- overrides that no line references are kept
  let files := resolved ++ overrides.filter fun (k, _) => (resolved.lookup k).isNone
  let raw := rawSize files
  if maxPhraseFilesRawBytes < raw then
    .error ("PhraseFilesTooLarge: injected raw size " ++ toString raw ++ " exceeds "
      ++ toString maxPhraseFilesRawBytes)
  else
    return {
      files
      droppedBasenames := dropped
      rawBytes := raw
      effectiveLines :=
        if dropped = [] then directiveLines
        else dropSecLangLinesWithBasenames directiveLines dropped }

end KubeWaf.Probe
