import KubeWaf.Lib.GoStrings
import KubeWaf.Lib.Runs
import KubeWaf.Seclang.Types
import Mathlib.Data.Finset.Union
import Mathlib.Data.Fintype.Basic

/-!
# Allocation of rule ids

`internal/controller/seclang/id_pool.go` and the part of `Reconcile` around it. A reconcile reads
its SecRule and a list of all SecRules, either of which may be stale, resolves the id of each entry
in turn and writes the ids back. An entry without an id takes one from the pool, whose cursor is
advanced by an update that fails if the pool has changed since it was read. Reconciles of any
number of SecRules interleave; each of them can end after any step.
-/

namespace KubeWaf.Seclang

open Lib

/-! ## Claims -/

/-- A SecRule as the API stores it. `annotatedID` is the number in the annotation
`seclang.kubewaf.io/assigned-id`; there is none where that is absent or not a number. -/
structure StoredRule where
  spec : SecRuleSpec
  status : SecRuleStatus := {}
  annotatedID : Option Int := none
  version : ℕ := 0
  deriving DecidableEq

/-- `Metadata.Id`, where the metadata is set. -/
def metaID (metadata : Option SecRuleMetadata) : Int :=
  match metadata with
  | none => 0
  | some m => m.id

/-- The `metadata.id` of each entry of a SecRule: one in the single-rule form, else one for each
rule of the bag. -/
def SecRuleSpec.entryIDs (spec : SecRuleSpec) : List Int :=
  if spec.isSingleRuleForm then [metaID spec.metadata]
  else spec.secRules.map fun rule => metaID rule.metadata

/-- The ids that a spec sets. -/
def SecRuleSpec.explicitIDs (spec : SecRuleSpec) : List Int :=
  (metaID spec.metadata :: spec.secRules.map fun rule => metaID rule.metadata).filter (0 < ·)

/-- What a SecRule holds from earlier reconciles: the ids in its status and in its annotation. -/
def StoredRule.ownClaims (sr : StoredRule) : List Int :=
  sr.status.assignedIDs ++ (if 0 < sr.status.ruleID then [sr.status.ruleID] else [])
    ++ sr.annotatedID.toList

/-- The ids of a SecRule that `collectUsedIDs` counts. -/
def StoredRule.claims (sr : StoredRule) : List Int :=
  sr.ownClaims.filter (0 < ·) ++ sr.spec.explicitIDs

def freeSelfClaims (sr : StoredRule) (used : Finset Int) : Finset Int :=
  used \ sr.ownClaims.toFinset

/-! ## The pool -/

structure SecRuleIDPool where
  minID : Int := 100000
  maxID : Int := 999999
  nextID : Int := 0
  lastAllocatedID : Int := 0
  allocatedCount : ℕ := 0
  version : ℕ := 0
  deriving DecidableEq

namespace SecRuleIDPool

def effectiveMin (p : SecRuleIDPool) : Int := if p.minID ≤ 0 then 100000 else p.minID

def effectiveMax (p : SecRuleIDPool) : Int := if p.maxID ≤ 0 then 999999 else p.maxID

/-- The id that the search starts at. -/
def cursor (p : SecRuleIDPool) : Int :=
  if p.nextID < p.effectiveMin then p.effectiveMin else p.nextID

end SecRuleIDPool

/-- The loop of `findFree`, over `n` ids from `id` on. -/
def findFreeFrom (used : Finset Int) : ℕ → Int → Option Int
  | 0, _ => none
  | n + 1, id => if id ∈ used then findFreeFrom used n (id + 1) else some id

def findFree (first last : Int) (used : Finset Int) : Option Int :=
  findFreeFrom used (last - first + 1).toNat first

/-- One round of `allocateOne` up to the update: the id, and the pool with the cursor behind it. -/
def allocation (pool : SecRuleIDPool) (used : Finset Int) : Except String (Int × SecRuleIDPool) :=
  let min := pool.effectiveMin
  let max := pool.effectiveMax
  if max < min then .error "SecRuleIDPool \"cluster\" has maxId < minId"
  else
    -- from the cursor on, then from the start
    match findFree pool.cursor max used <|> findFree min (pool.cursor - 1) used with
    | none =>
      .error ("SecRuleIDPool \"cluster\" exhausted (" ++ toString min ++ "–" ++ toString max ++ ")")
    | some id =>
      .ok (id,
        { pool with
          nextID := if max < id + 1 then min else id + 1
          lastAllocatedID := id
          allocatedCount := pool.allocatedCount + 1 })

/-! ## One entry -/

/-- `IDSourceSpec`, `IDSourceAuto` and `IDSourceMixed` -/
inductive IDSource where
  | spec
  | auto
  | mixed
  deriving DecidableEq

/-- The id that an entry had before: from the status, and for the first entry from the
annotation. -/
def stickyID (sr : StoredRule) (index : ℕ) : Option Int :=
  (sr.status.assignedIDs[index]?.filter (0 < ·)).or
    (if index = 0 then sr.annotatedID.filter (0 < ·) else none)

/-- `resolveOneID(sr, metaID, index, used)`, as far as it does not need the pool. -/
def fixedID (sr : StoredRule) (metaID : Int) (index : ℕ) : Option (Int × IDSource) :=
  if 0 < metaID then some (metaID, .spec) else (stickyID sr index).map fun id => (id, .auto)

/-- The source that `allocateIDs` reports for all entries. -/
def idSource (assigned : List (Int × IDSource)) : Option IDSource :=
  if assigned = [] then none
  else if assigned.any (fun a => a.2 = .auto) && assigned.any (fun a => a.2 = .spec) then
    some .mixed
  else if assigned.any (fun a => a.2 = .auto) then some .auto
  else some .spec

/-- The id of the first entry. -/
def primaryID (assigned : List (Int × IDSource)) : Int := (assigned.head?.map (·.1)).getD 0

/-- The annotation that `syncSecRuleLabels` leaves. -/
def syncedID (sr : StoredRule) (assigned : List (Int × IDSource)) : Option Int :=
  if (idSource assigned = some .auto ∨ idSource assigned = some .mixed) ∧ 0 < primaryID assigned then
    some (primaryID assigned)
  else sr.annotatedID

/-! ## Interleaved reconciles -/

/-- A reconcile that is under way. -/
structure Reconcile (K : Type) where
  key : K
  /-- The SecRule as it was read. -/
  object : StoredRule
  used : Finset Int
  /-- The `metadata.id` of the entries that have no id yet. -/
  todo : List Int
  assigned : List (Int × IDSource) := []
  /-- The pool as `allocateOne` has read it. -/
  read : Option SecRuleIDPool := none
  attempt : ℕ := 0
  annotated : Bool := false

/-- An id that `resolveOneID` has returned for an entry. -/
structure Grant (K : Type) where
  key : K
  index : ℕ
  id : Int
  source : IDSource
  deriving DecidableEq

/-- The cluster and the reconciles on it. `past` and `pastPools` are what stale reads return,
`granted` and `allocated` record what has been granted, and what of that the pool has. -/
structure World (K : Type) where
  rules : K → StoredRule
  secActionIDs : List Int := []
  pool : SecRuleIDPool := {}
  past : List (K → StoredRule) := []
  pastPools : List SecRuleIDPool := []
  running : ℕ → Option (Reconcile K) := fun _ => none
  granted : List (Grant K) := []
  allocated : List ((K × ℕ) × Int) := []

/-- A step of the reconcile `t`. A number `object`, `list` or `pool` says how stale a read is. -/
inductive Event (K : Type) where
  | start (t : ℕ) (k : K) (object list : ℕ)
  | resolve (t : ℕ)
  | readPool (t pool : ℕ)
  | commit (t : ℕ)
  | annotate (t object : ℕ)
  | writeStatus (t : ℕ)
  | drop (t : ℕ)
  deriving DecidableEq

def Event.isCommit {K : Type} : Event K → Bool
  | .commit _ => true
  | _ => false

section
variable {K : Type} [DecidableEq K] [Fintype K]

/-- `collectUsedIDs`, on a list of all SecRules. -/
def collectUsedIDs (rules : K → StoredRule) : Finset Int :=
  Finset.univ.biUnion fun k => (rules k).claims.toFinset

namespace World

/-- The states of the SecRules so far, the current one first. -/
def stores (w : World K) : List (K → StoredRule) := w.rules :: w.past

/-- The states of the pool so far, the current one first. -/
def pools (w : World K) : List SecRuleIDPool := w.pool :: w.pastPools

/-- The reconcile `t` goes on, or ends. -/
def setRunning (w : World K) (t : ℕ) (r : Option (Reconcile K)) : World K :=
  { w with running := Function.update w.running t r }

/-- A SecRule is written. -/
def setRule (w : World K) (k : K) (sr : StoredRule) : World K :=
  { w with
    rules := Function.update w.rules k { sr with version := (w.rules k).version + 1 }
    past := w.stores }

end World

/-- The reconcile has an id for its next entry. -/
def Reconcile.take (r : Reconcile K) (id : Int) (source : IDSource) : Reconcile K :=
  { r with
    used := insert id r.used
    todo := r.todo.tail
    assigned := r.assigned ++ [(id, source)]
    read := none
    attempt := 0 }

/-- The grant of an id for the next entry. -/
def Reconcile.grant (r : Reconcile K) (id : Int) (source : IDSource) : Grant K :=
  { key := r.key, index := r.assigned.length, id, source }

/-- The state that a reconcile starts in. -/
def Reconcile.begin (k : K) (object : StoredRule) (list : K → StoredRule) : Reconcile K :=
  { key := k
    object
    used := freeSelfClaims object (collectUsedIDs list)
    todo := object.spec.entryIDs }

/-- What the next entry gets without the pool; `none` if there is no entry left. -/
def Reconcile.fixed? (r : Reconcile K) : Option (Option (Int × IDSource)) :=
  match r.todo with
  | [] => none
  | m :: _ => some (fixedID r.object m r.assigned.length)

/-- The update of the pool: the id is granted, or the update is refused and the round repeated. -/
def commit (w : World K) (t : ℕ) (r : Reconcile K) (copy : SecRuleIDPool) : World K :=
  match allocation copy r.used with
  | .error _ => w.setRunning t none
  | .ok (id, pool) =>
    if copy.version = w.pool.version then
      { w.setRunning t (some (r.take id .auto)) with
        pool := { pool with version := w.pool.version + 1 }
        pastPools := w.pools
        granted := r.grant id .auto :: w.granted
        allocated := ((r.key, r.assigned.length), id) :: w.allocated }
    else w.setRunning t (some { r with read := none, attempt := r.attempt + 1 })

/-- One step; `none` where it is not possible. -/
def step (w : World K) : Event K → Option (World K)
  | .start t k object list =>
    match w.running t, w.stores[object]?, w.stores[list]? with
    | none, some objects, some lists =>
      some (w.setRunning t (some (Reconcile.begin k (objects k) lists)))
    | _, _, _ => none
  | .resolve t => do
    let r ← w.running t
    let fixed ← r.fixed?
    let (id, source) ← fixed
    some { w.setRunning t (some (r.take id source)) with granted := r.grant id source :: w.granted }
  | .readPool t pool => do
    let r ← w.running t
    let copy ← w.pools[pool]?
    if r.fixed? = some none ∧ r.attempt < 32 then
      some (w.setRunning t (some { r with read := some copy }))
    else none
  | .commit t => do
    let r ← w.running t
    let copy ← r.read
    some (commit w t r copy)
  | .annotate t object => do
    let r ← w.running t
    if r.todo = [] ∧ r.annotated = false then
      -- the update is refused if the SecRule has changed since
      if r.object.version = (w.rules r.key).version then
        let w' := w.setRule r.key
          { w.rules r.key with annotatedID := syncedID r.object r.assigned }
        let objects ← w'.stores[object]?
        some (w'.setRunning t (some { r with object := objects r.key, annotated := true }))
      else some (w.setRunning t none)
    else none
  | .writeStatus t => do
    let r ← w.running t
    if r.todo = [] ∧ (r.annotated ∨ syncedID r.object r.assigned = r.object.annotatedID) then
      if r.object.version = (w.rules r.key).version then
        let rule := w.rules r.key
        some ((w.setRule r.key
          { rule with
            status := { rule.status with
              ruleID := primaryID r.assigned, assignedIDs := r.assigned.map (·.1) } }).setRunning
          t none)
      else some (w.setRunning t none)
    else none
  | .drop t => some (w.setRunning t none)

end

end KubeWaf.Seclang
