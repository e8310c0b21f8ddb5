import KubeWaf.DataFiles.Discover
import KubeWaf.Lib.RevisionStore
import Mathlib

/-!
# Who owns a data file name

The reconcilers of `internal/controller/seclang/phraselist_controller.go` and
`iplist_controller.go`. Both do the same with their own kind and look at the other kind for
conflicts, so the kind is a parameter. A reconcile is a sequence of requests to the API server, and
reconciles of different objects, and the users, come in between. The ConfigMaps are read where a
reconcile starts, and are what the event says.
-/

namespace KubeWaf.DataFiles.Ownership

open Lib

/-! ## Objects -/

inductive ListKind where
  | phraseList
  | ipList
  deriving DecidableEq

def ListKind.text : ListKind → String
  | .phraseList => "PhraseList"
  | .ipList => "IPList"

def ListKind.other : ListKind → ListKind
  | .phraseList => .ipList
  | .ipList => .phraseList

/-- `LabelPhraseList` and `LabelIPList` -/
def ListKind.label : ListKind → String
  | .phraseList => "seclang.kubewaf.io/phrase-list"
  | .ipList => "seclang.kubewaf.io/ip-list"

def labelFileName : String := "seclang.kubewaf.io/file-name"

structure ListKey where
  ns : String
  kind : ListKind
  name : String
  deriving DecidableEq

/-- A stored list, with what the controllers write of its status. `list.ready` says whether the
Ready condition is True; the other fields of the condition follow. -/
structure StoredList where
  list : DataList
  generation : ℕ
  observedGeneration : ℕ := 0
  reason : String := ""
  message : String := ""
  sizeBytes : ℕ := 0
  contentHash : String := ""
  deriving DecidableEq

/-- The status of `status` on the object `o`. -/
def StoredList.withStatus (o status : StoredList) : StoredList :=
  { status with
    list := { o.list with ready := status.list.ready, statusFileName := status.list.statusFileName }
    generation := o.generation }

/-- The Ready condition is True, for the spec as it is now. -/
def StoredList.ReadyNow (o : StoredList) : Prop :=
  o.list.ready = true ∧ o.observedGeneration = o.generation

instance (o : StoredList) : Decidable o.ReadyNow :=
  inferInstanceAs (Decidable (_ ∧ _))

/-- A list as a user creates it: the API server takes no status from the user. -/
def StoredList.created (key : ListKey) (l : DataList) : StoredList where
  list := { l with name := key.name, ready := false, statusFileName := [] }
  generation := 1

/-- A user changes `spec.fileName`. -/
def StoredList.renamed (o : StoredList) (fileName : List Char) : StoredList :=
  { o with list := { o.list with fileName := fileName }, generation := o.generation + 1 }

/-! ## Bodies -/

def readCM (ns : Namespace) (ref : ConfigMapKeyRef) : Except String Bytes :=
  match ns.configMaps.find? (·.name = ref.name) with
  | none => .error ("configmap " ++ ns.name ++ "/" ++ ref.name ++ " not found")
  | some cm =>
    match cm.data.lookup ref.key with
    | some v => .ok v
    | none =>
      match cm.binaryData.lookup ref.key with
      | some v => .ok v
      | none => .error (configMapMissingKey ns ref.name ref.key)

/-- How many of `content`, `configMapRef` and `parts` are set. -/
def sources (l : DataList) : ℕ :=
  (if l.content ≠ [] then 1 else 0) + (if l.configMapRef.isSome then 1 else 0) +
    if l.parts ≠ [] then 1 else 0

def resolveBody (ns : Namespace) (l : DataList) : Except String Bytes :=
  if sources l ≠ 1 then .error "exactly one of content, configMapRef, or parts is required"
  else if l.content ≠ [] then .ok l.content
  else
    match l.configMapRef with
    | some ref => readCM ns ref
    | none => (l.parts.mapM (readCM ns)).map fun parts => parts.foldl appendPart []

/-! ## Labels -/

def isLabelSafe (s : List Char) : Bool :=
  s ≠ [] && (s.map Char.utf8Size).sum ≤ 63 && s.all fun c =>
    ('a' ≤ c && c ≤ 'z') || ('A' ≤ c && c ≤ 'Z') || ('0' ≤ c && c ≤ '9') || c = '-' || c = '_' ||
      c = '.'

/-- An assignment to an entry of the label map. -/
def setLabel (labels : List (String × String)) (key value : String) : List (String × String) :=
  (key, value) :: labels.filter (·.1 ≠ key)

/-- The labels that the reconciler wants, and whether they differ from those of the list. -/
def wantedLabels (kind : ListKind) (l : DataList) : List (String × String) × Bool :=
  let (labels, needUpdate) :=
    if (l.labels.lookup kind.label).getD "" ≠ "true" then (setLabel l.labels kind.label "true", true)
    else (l.labels, false)
  let fn := String.ofList l.fileName
  if isLabelSafe l.fileName ∧ (labels.lookup labelFileName).getD "" ≠ fn then
    (setLabel labels labelFileName fn, true)
  else (labels, needUpdate)

def StoredList.labelled (o : StoredList) (labels : List (String × String)) : StoredList :=
  { o with list := { o.list with labels } }

/-! ## Reconciling -/

/-- The object with the status of `fail`. -/
def StoredList.failed (o : StoredList) (reason message : String) : StoredList :=
  { o with
    list := { o.list with ready := false, statusFileName := o.list.fileName }
    observedGeneration := o.generation
    reason, message }

/-- The object with the status of a successful reconcile, with `hash` for the hex form of
SHA-256. -/
def StoredList.succeeded (hash : Bytes → String) (o : StoredList) (body : Bytes) : StoredList where
  list := { o.list with ready := true, statusFileName := o.list.fileName }
  generation := o.generation
  observedGeneration := o.generation
  reason := "ContentReady"
  message := "fileName=" ++ String.ofList o.list.fileName ++ " size=" ++ toString body.length
  sizeBytes := body.length
  contentHash := hash body

/-- Where a reconcile stands: what it does next, with what it has in memory. -/
inductive Flight where
  | listOwn (o : Versioned StoredList) (body : Bytes)
  | listOther (o : Versioned StoredList) (body : Bytes)
  | updateLabels (o : Versioned StoredList) (body : Bytes)
  | reGet (body : Bytes)
  | writeStatus (o : Versioned StoredList)

abbrev Store := RevisionStore ListKey StoredList

/-- `List` of a kind in a namespace. -/
def listItems (s : Store) (ns : String) (kind : ListKind) : List DataList :=
  (s.objects.entries.filter fun e => e.1.ns = ns ∧ e.1.kind = kind).map fun e => e.2.object.list

/-- The list of one kind that owns the file name of `key`, in the loops of `fileNameConflict`. -/
def owner (s : Store) (key : ListKey) (kind : ListKind) (fileName : List Char) : Option DataList :=
  (listItems s key.ns kind).find? fun l =>
    !(kind = key.kind && l.name = key.name) && l.fileName = fileName && l.ready

/-- The messages of `fileNameConflict`. -/
def conflictMessage (key : ListKey) (kind : ListKind) (l : DataList) : String :=
  let fn := Go.quoted (String.ofList l.fileName)
  if kind = key.kind then
    "another Ready " ++ kind.text ++ " " ++ Go.quoted l.name ++ " already owns fileName " ++ fn
  else
    "Ready " ++ kind.text ++ " " ++ Go.quoted l.name ++ " already owns fileName " ++ fn ++
      " (use a distinct basename)"

/-- `Reconcile` up to its first `List`, on the object that it has read. -/
def start (key : ListKey) (configMaps : List ConfigMap) (o : Versioned StoredList) : Flight :=
  match resolveBody { name := key.ns, configMaps } o.object.list with
  | .error e => .writeStatus (o.map (·.failed "ContentUnresolved" e))
  | .ok body =>
    if maxPhraseFilesRawBytes < body.length then
      .writeStatus (o.map (·.failed "ContentTooLarge" ("composed body " ++
        toString body.length ++ " bytes exceeds max " ++ toString maxPhraseFilesRawBytes)))
    else .listOwn o body

/-- The part of `Reconcile` after the conflict check. -/
def afterCheck (hash : Bytes → String) (key : ListKey) (o : Versioned StoredList) (body : Bytes) :
    Flight :=
  let (labels, needUpdate) := wantedLabels key.kind o.object.list
  if needUpdate then
    .updateLabels (o.map (·.labelled labels)) body
  else .writeStatus (o.map (·.succeeded hash body))

/-- The next request of a reconcile. Where a request fails the reconcile ends. -/
def advance (hash : Bytes → String) (s : Store) (key : ListKey) : Flight → Store × Option Flight
  | .listOwn o body =>
    match owner s key key.kind o.object.list.fileName with
    | some l =>
      (s, some (.writeStatus
        (o.map (·.failed "FileNameConflict" (conflictMessage key key.kind l)))))
    | none => (s, some (.listOther o body))
  | .listOther o body =>
    match owner s key key.kind.other o.object.list.fileName with
    | some l =>
      (s, some (.writeStatus
        (o.map (·.failed "FileNameConflict" (conflictMessage key key.kind.other l)))))
    | none => (s, some (afterCheck hash key o body))
  | .updateLabels o body =>
    match s.replace key o.version o.object.withStatus with
    | some s' => (s', some (.reGet body))
    | none => (s, none)
  | .reGet body =>
    match s.lookup key with
    | some o => (s, some (.writeStatus (o.map (·.succeeded hash body))))
    | none => (s, none)
  | .writeStatus o =>
    match s.replace key o.version fun stored => stored.withStatus o.object with
    | some s' => (s', none)
    | none => (s, none)

/-! ## The system -/

/-- The API server, and the reconciles under way: at most one for each object. -/
structure World where
  store : Store
  flights : ListKey → Option Flight

inductive Event where
  | create (key : ListKey) (l : DataList)
  | rename (key : ListKey) (fileName : List Char)
  | delete (key : ListKey)
  /-- A reconcile starts, with the ConfigMaps of the namespace. -/
  | reconcile (key : ListKey) (configMaps : List ConfigMap)
  /-- A reconcile goes on. -/
  | request (key : ListKey)
  /-- A request of a reconcile is refused. -/
  | refused (key : ListKey)

def World.init : World := ⟨.empty, fun _ => none⟩

def World.step (hash : Bytes → String) (w : World) : Event → World
  | .create key l =>
    match w.store.lookup key with
    | none => { w with store := w.store.put key (.created key l) }
    | some _ => w
  | .rename key fileName =>
    match w.store.lookup key with
    | none => w
    | some o =>
      if o.object.list.fileName = fileName then w
      else { w with store := w.store.put key (o.object.renamed fileName) }
  | .delete key => { w with store := w.store.remove key }
  | .reconcile key configMaps =>
    match w.flights key, w.store.lookup key with
    | none, some o =>
      { w with flights := Function.update w.flights key (some (start key configMaps o)) }
    | _, _ => w
  | .request key =>
    match w.flights key with
    | none => w
    | some flight =>
      let (store, next) := advance hash w.store key flight
      ⟨store, Function.update w.flights key next⟩
  | .refused key => { w with flights := Function.update w.flights key none }

def World.run (hash : Bytes → String) (w : World) (events : List Event) : World :=
  events.foldl (World.step hash) w

/-- No two lists of a namespace own the same file name. -/
def World.Exclusive (w : World) : Prop :=
  ∀ k k' o o', k ≠ k' → k.ns = k'.ns → w.store.lookup k = some o → w.store.lookup k' = some o' →
    o.object.list.fileName = o'.object.list.fileName →
      ¬(o.object.ReadyNow ∧ o'.object.ReadyNow)

end KubeWaf.DataFiles.Ownership
