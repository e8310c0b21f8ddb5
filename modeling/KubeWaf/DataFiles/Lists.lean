import KubeWaf.DataFiles.FromFile
import KubeWaf.Lib.Base64

/-!
# PhraseLists and IPLists

The objects that hold the bodies of data files, and how `internal/dataplane/config/phrasefiles.go`
looks them up. `PhraseList` and `IPList` have the same fields and the source treats them by the
same code twice; here the kind is a parameter. Reads of the API are taken to succeed, apart from
objects that are not there.
-/

namespace KubeWaf.DataFiles

open Lib List

abbrev Bytes := List UInt8

/-- A key of a ConfigMap. -/
structure ConfigMapKeyRef where
  name : String
  key : String
  deriving DecidableEq

/-- A ConfigMap. `binaryData` holds the bytes, as a typed client gives them. -/
structure ConfigMap where
  name : String
  data : List (String × Bytes) := []
  binaryData : List (String × Bytes) := []
  deriving DecidableEq

/-- `PhraseList` or `IPList`, with `meta.IsStatusConditionTrue(conditions, "Ready")`. -/
structure DataList where
  name : String
  labels : List (String × String) := []
  annotations : List (String × String) := []
  fileName : List Char
  statusFileName : List Char := []
  ready : Bool
  content : Bytes := []
  configMapRef : Option ConfigMapKeyRef := none
  parts : List ConfigMapKeyRef := []
  deriving DecidableEq

/-- What is in the namespace of a WAF. -/
structure Namespace where
  name : String
  phraseLists : List DataList := []
  ipLists : List DataList := []
  configMaps : List ConfigMap := []
  deriving DecidableEq

/-! ## Bodies -/

/-- The error for a ConfigMap that cannot be read. -/
def configMapNotFound (ns : Namespace) (name : String) : String :=
  "configmap " ++ ns.name ++ "/" ++ name ++ ": configmaps " ++ Go.quoted name ++ " not found"

def configMapMissingKey (ns : Namespace) (name key : String) : String :=
  "configmap " ++ ns.name ++ "/" ++ name ++ " missing key " ++ Go.quoted key

/-- `readConfigMapKey`, with `binary` for what the client makes of a value of `binaryData`. -/
def readConfigMapKeyWith (binary : Bytes → Bytes) (ns : Namespace) (ref : ConfigMapKeyRef) :
    Except String Bytes :=
  match ns.configMaps.find? (·.name = ref.name) with
  | none => .error (configMapNotFound ns ref.name)
  | some cm =>
    match cm.data.lookup ref.key with
    | some v => .ok v
    | none =>
      match cm.binaryData.lookup ref.key with
      | some v => .ok (binary v)
      | none => .error (configMapMissingKey ns ref.name ref.key)

/-- `readConfigMapKey` of the dataplane. It reads the ConfigMap as an unstructured object, in
which `binaryData` is the base64 text of the JSON document. -/
def readConfigMapKey : Namespace → ConfigMapKeyRef → Except String Bytes :=
  readConfigMapKeyWith Base64.encode

/-- One round of the loop over `parts`: the part, and a line feed where it does not end in one. -/
def appendPart (buf part : Bytes) : Bytes :=
  let buf := buf ++ part
  if buf ≠ [] ∧ buf.getLast? ≠ some 10 then buf ++ [10] else buf

/-- `resolvePhraseListBody` and `resolveIPListBody`, over a way to read the ConfigMaps. -/
def resolveBodyWith (read : ConfigMapKeyRef → Except String Bytes) (kind : String)
    (ns : Namespace) (l : DataList) : Except String Bytes :=
  if l.content ≠ [] then .ok l.content
  else
    match l.configMapRef with
    | some ref => read ref
    | none =>
      if l.parts ≠ [] then
        (l.parts.mapM read).map fun parts => parts.foldl appendPart []
      else .error (kind ++ " " ++ ns.name ++ "/" ++ l.name ++ " has no content source")

/-- A part as it stands in the body: with a line feed at its end, unless it is empty. -/
def partLine (part : Bytes) : Bytes :=
  if part ≠ [] ∧ part.getLast? ≠ some 10 then part ++ [10] else part

lemma appendPart_eq {buf part : Bytes} (h : buf = [] ∨ buf.getLast? = some 10) :
    appendPart buf part = buf ++ partLine part := by
  rw [appendPart, partLine]
  by_cases hpart : part = []
  · have hend : ¬(buf ++ part ≠ [] ∧ (buf ++ part).getLast? ≠ some 10) := by
      rw [hpart, append_nil]
      exact fun hne => h.elim hne.1 hne.2
    have hpart' : ¬(part ≠ [] ∧ part.getLast? ≠ some 10) := fun hne => hne.1 hpart
    rw [if_neg hend, if_neg hpart']
  · have hne : buf ++ part ≠ [] := append_ne_nil_of_right_ne_nil buf hpart
    have hlast : (buf ++ part).getLast? = part.getLast? := getLast?_append_of_ne_nil buf hpart
    simp only [hlast, hne, hpart, ne_eq, not_false_eq_true, true_and]
    split_ifs <;> simp

lemma getLast?_partLine {part : Bytes} (h : part ≠ []) : (partLine part).getLast? = some 10 := by
  rw [partLine]
  split_ifs with hend
  · exact getLast?_concat
  · by_contra hlast
    exact hend ⟨h, hlast⟩

lemma foldl_appendPart {buf : Bytes} (parts : List Bytes)
    (h : buf = [] ∨ buf.getLast? = some 10) :
    parts.foldl appendPart buf = buf ++ parts.flatMap partLine := by
  induction parts generalizing buf with
  | nil => rw [foldl_nil, flatMap_nil, append_nil]
  | cons part parts ih =>
    have hnext : buf ++ partLine part = [] ∨ (buf ++ partLine part).getLast? = some 10 := by
      by_cases hpart : part = []
      · have hline : partLine part = [] := by rw [hpart]; rfl
        rw [hline, append_nil]
        exact h
      · have hlast := getLast?_partLine hpart
        have hne : partLine part ≠ [] := fun hnil => by rw [hnil] at hlast; cases hlast
        rw [getLast?_append_of_ne_nil buf hne]
        exact Or.inr hlast
    rw [foldl_cons, appendPart_eq h, ih hnext, flatMap_cons, append_assoc]

def resolvePhraseListBody (ns : Namespace) : DataList → Except String Bytes :=
  resolveBodyWith (readConfigMapKey ns) "PhraseList" ns

def resolveIPListBody (ns : Namespace) : DataList → Except String Bytes :=
  resolveBodyWith (readConfigMapKey ns) "IPList" ns

/-! ## Lookups -/

def conflict (kind : String) (ns : Namespace) (fileName : List Char) : String :=
  "FileNameConflict: multiple Ready " ++ kind ++ "s for " ++ ns.name ++ "/"
    ++ String.ofList fileName

/-- `IndexPhraseListByFileName` and `IndexIPListByFileName`: the file name that a list is indexed
under. -/
def indexFileName (l : DataList) : List Char :=
  if l.fileName = [] then l.statusFileName else l.fileName

/-- The only Ready list of a file name; the loop fails at the second one. -/
def onlyReady (kind : String) (ns : Namespace) (fileName : List Char) :
    List DataList → Except String (Option DataList)
  | [] => .ok none
  | [l] => .ok (some l)
  | _ :: _ :: _ => .error (conflict kind ns fileName)

/-- `lookupReadyPhraseList` and `lookupReadyIPList`: the index gives the lists of the file name,
of which those with that `spec.fileName` that are Ready count. -/
def lookupReady (kind : String) (ns : Namespace) (lists : List DataList) (fileName : List Char) :
    Except String (Option DataList) :=
  onlyReady kind ns fileName
    ((lists.filter fun l => indexFileName l ≠ [] ∧ indexFileName l = fileName).filter fun l =>
      l.fileName = fileName ∧ l.ready)

def lookupReadyPhraseList (ns : Namespace) : List Char → Except String (Option DataList) :=
  lookupReady "PhraseList" ns ns.phraseLists

def lookupReadyIPList (ns : Namespace) : List Char → Except String (Option DataList) :=
  lookupReady "IPList" ns ns.ipLists

/-- `lookupReadyDataFileBody(ns, fileName)`, with the kind of the list. -/
def lookupReadyDataFileBody (ns : Namespace) (fileName : List Char) :
    Except String (Option (Bytes × String)) := do
  match ← lookupReadyPhraseList ns fileName with
  | some l =>
    let body ← resolvePhraseListBody ns l
    pure (some (body, "PhraseList"))
  | none =>
    match ← lookupReadyIPList ns fileName with
    | some l =>
      let body ← resolveIPListBody ns l
      pure (some (body, "IPList"))
    | none => pure none

end KubeWaf.DataFiles
