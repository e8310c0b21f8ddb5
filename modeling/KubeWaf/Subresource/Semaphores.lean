import KubeWaf.Lib.GoMap
import KubeWaf.Lib.Runs
import Mathlib.Data.List.Perm.Basic

/-!
# Concurrency slots

`internal/subresourceapi`: a probe or a query takes a slot of a channel for all requests of its
kind, and then one of a channel for its namespace, which a bounded map has. A map that is full
gives up the channel of a namespace without requests, and a request that finds no slot is refused.

Probes and queries have their own channels and share only the mutex. What runs under the mutex is
one step here, as is an operation on a channel, so that the two gates are independent and each is a
transition system of its own. A probe releases the channel it has; a query looks the channel up
again by its namespace.
-/

namespace KubeWaf.Subresource

open Lib

inductive GateKind where
  | probe
  | query
  deriving DecidableEq

/-- The limits of `Config`, as they are set. -/
structure Config where
  perNamespaceConcurrency : ℤ := 0
  globalMaxInFlight : ℤ := 0
  perNamespaceQueryConcurrency : ℤ := 0
  globalQueryMaxInFlight : ℤ := 0

def defaultGlobalMaxInFlight : ℤ := 32

def defaultQueryPerNamespace : ℤ := 16

def defaultQueryGlobalMax : ℤ := 64

def maxNSSemEntries : ℕ := 4096

/-- The limits of a gate. -/
structure GateLimits where
  perNamespace : ℕ
  globalMax : ℕ
  deriving DecidableEq

/-- A limit, or its default. -/
def limitOr (n default : ℤ) : ℕ := (if n ≤ 0 then default else n).toNat

/-- The limits that `NewServer` gives a gate. -/
def Config.limits (cfg : Config) : GateKind → GateLimits
  | .probe =>
    { perNamespace := limitOr cfg.perNamespaceConcurrency 4
      globalMax := limitOr cfg.globalMaxInFlight defaultGlobalMaxInFlight }
  | .query =>
    { perNamespace := limitOr cfg.perNamespaceQueryConcurrency defaultQueryPerNamespace
      globalMax := limitOr cfg.globalQueryMaxInFlight defaultQueryGlobalMax }

/-! ## Channels -/

/-- The channels of a gate. A channel is a number, and its slots in use are its length; one that
was not made yet has none. -/
structure Gate where
  /-- `len(s.globalSem)` or `len(s.queryGlobalSem)` -/
  global : ℕ := 0
  /-- `s.nsSem` or `s.queryNSSem` -/
  sems : GoMap String ℕ := ∅
  len : ℕ → ℕ := fun _ => 0
  /-- The next channel that is made. -/
  next : ℕ := 0

/-- The entries of the map. -/
def Gate.entries (g : Gate) : List (String × ℕ) := g.sems.entries.map fun e => (e.1, e.2)

/-- `len(m)` -/
def mapLen (m : GoMap String ℕ) : ℕ := m.entries.length

/-- The loop of `acquireNamedSem` that evicts namespaces without slots in use, over the entries in
the order of the loop. -/
def evictIdle (len : ℕ → ℕ) : List (String × ℕ) → GoMap String ℕ → GoMap String ℕ
  | [], m => m
  | (k, ch) :: rest, m =>
    if len ch = 0 then
      if mapLen (m.erase k) < maxNSSemEntries then m.erase k else evictIdle len rest (m.erase k)
    else evictIdle len rest m

/-- What `acquireNamedSem` does under the mutex: the channel of the namespace, found or made, if
there is room. -/
def Gate.lookupSem (g : Gate) (ns : String) (order : List (String × ℕ)) : Gate × Option ℕ :=
  match g.sems.lookup ns with
  | some sem => (g, some sem)
  | none =>
    let m := if maxNSSemEntries ≤ mapLen g.sems then evictIdle g.len order g.sems else g.sems
    if maxNSSemEntries ≤ mapLen m then ({ g with sems := m }, none)
    else ({ g with sems := m.insert ns g.next, next := g.next + 1 }, some g.next)

/-- The capacity of a channel that `acquireNamedSem` makes. -/
def semCapacity (n : ℕ) : ℕ := if n ≤ 0 then 1 else n

/-! ## Requests -/

/-- Where a request is. -/
inductive Place where
  /-- It has a slot of the channel for all. -/
  | entered (ns : String)
  /-- It has the channel of its namespace, and has not sent yet. -/
  | looked (ns : String) (sem : ℕ)
  /-- It has its slots. A query for all namespaces has none of a namespace. A query does not keep
  the channel; it is here to say whose slot it took. -/
  | acquired (ns : String) (sem : Option ℕ)
  /-- A query on its way out, behind the lookup of the channel to release. -/
  | found (ns : String) (own : Option ℕ) (sem : Option ℕ)
  /-- It was refused, and has the slot of the channel for all still. -/
  | refused
  /-- It has released the slot of its namespace. -/
  | freed
  | done
  deriving DecidableEq

/-- The request has a slot of the channel. -/
def Place.holds (ch : ℕ) : Place → Bool
  | .acquired _ sem => sem = some ch
  | .found _ own _ => own = some ch
  | _ => false

/-- The request has a slot of the namespace. -/
def Place.holdsFor (ns : String) : Place → Bool
  | .acquired ns' sem => ns' = ns && sem.isSome
  | .found ns' own _ => ns' = ns && own.isSome
  | _ => false

/-- The request has a slot of the channel for all. -/
def Place.holdsGlobal : Place → Bool
  | .done => false
  | _ => true

/-- The steps of a request. -/
inductive GateAction where
  /-- Under the mutex in `acquireNamedSem`, with the order of its loop. -/
  | lookup (order : List (String × ℕ))
  /-- The send of `acquireNamedSem`. -/
  | send
  /-- Under the mutex in `releaseQuerySlot`. -/
  | find
  /-- The receive of `releaseNS`. -/
  | free
  /-- The receive from the channel for all. -/
  | leave

section Steps

variable (kind : GateKind) (limits : GateLimits)

/-- A request comes in. -/
def Gate.enter (g : Gate) (ns : String) : Gate × Place :=
  if g.global < limits.globalMax then
    let g := { g with global := g.global + 1 }
    match kind with
    | .probe => (g, .entered ns)
    | .query => if ns = "" then (g, .acquired ns none) else (g, .entered ns)
  else (g, .done)

def Gate.releaseNS (g : Gate) (sem : ℕ) : Gate :=
  { g with len := Function.update g.len sem (g.len sem - 1) }

/-- One step of a request that is under way. -/
def Place.step (g : Gate) : Place → GateAction → Option (Gate × Place)
  | .entered ns, .lookup order =>
    if order.Perm g.entries then
      match g.lookupSem ns order with
      | (g, some sem) => some (g, .looked ns sem)
      | (g, none) => some (g, .refused)
    else none
  | .looked ns sem, .send =>
    if g.len sem < semCapacity limits.perNamespace then
      some ({ g with len := Function.update g.len sem (g.len sem + 1) }, .acquired ns (some sem))
    else some (g, .refused)
  | .acquired ns own, .find =>
    match kind with
    | .probe => none
    | .query => some (g, .found ns own (if ns = "" then none else g.sems.lookup ns))
  | .acquired _ own, .free =>
    match kind, own with
    | .probe, some sem => some (g.releaseNS sem, .freed)
    | _, _ => none
  | .found _ _ sem, .free =>
    match sem with
    | some sem => some (g.releaseNS sem, .freed)
    | none => some (g, .freed)
  -- a receive that waits for a slot to be there, but for a query that leaves with its slots
  | .refused, .leave => if g.global = 0 then none else some ({ g with global := g.global - 1 }, .done)
  | .freed, .leave =>
    match kind with
    | .probe => if g.global = 0 then none else some ({ g with global := g.global - 1 }, .done)
    | .query => some ({ g with global := g.global - 1 }, .done)
  | _, _ => none

/-- A gate with its requests, in the order in which they came in. -/
structure GateRun where
  gate : Gate := {}
  requests : List Place := []

inductive GateEvent where
  | enter (ns : String)
  | act (i : ℕ) (action : GateAction)

def GateRun.step (s : GateRun) : GateEvent → Option GateRun
  | .enter ns =>
    let (gate, place) := s.gate.enter kind limits ns
    some ⟨gate, s.requests ++ [place]⟩
  | .act i action =>
    s.requests[i]?.bind fun place =>
      (place.step kind limits s.gate action).map fun r => ⟨r.1, s.requests.set i r.2⟩

end Steps

/-! ## What a step can do -/

section Cases

variable {kind : GateKind} {limits : GateLimits}

lemma step_enter {s s' : GateRun} {ns : String} (h : s.step kind limits (.enter ns) = some s') :
    ∃ g' p', (g' = s.gate ∧ p' = .done ∨
        s.gate.global < limits.globalMax ∧
          (g' = { s.gate with global := s.gate.global + 1 } ∧ p' = .entered ns ∧
              (kind = .query → ns ≠ "") ∨
            g' = { s.gate with global := s.gate.global + 1 } ∧ p' = .acquired "" none ∧
              kind = .query)) ∧
      s' = ⟨g', s.requests ++ [p']⟩ := by
  have hs' : s' = ⟨(s.gate.enter kind limits ns).1,
      s.requests ++ [(s.gate.enter kind limits ns).2]⟩ := (Option.some.inj h).symm
  refine ⟨_, _, ?_, hs'⟩
  by_cases hroom : s.gate.global < limits.globalMax
  · refine .inr ⟨hroom, ?_⟩
    cases kind with
    | probe =>
      have henter : s.gate.enter .probe limits ns
          = ({ s.gate with global := s.gate.global + 1 }, .entered ns) := by
        rw [Gate.enter, if_pos hroom]
      rw [henter]
      exact .inl ⟨rfl, rfl, fun hk => by cases hk⟩
    | query =>
      by_cases hns : ns = ""
      · have henter : s.gate.enter .query limits ns
            = ({ s.gate with global := s.gate.global + 1 }, .acquired "" none) := by
          rw [Gate.enter, if_pos hroom, hns]
          rfl
        rw [henter]
        exact .inr ⟨rfl, rfl, rfl⟩
      · have henter : s.gate.enter .query limits ns
            = ({ s.gate with global := s.gate.global + 1 }, .entered ns) := by
          rw [Gate.enter, if_pos hroom]
          exact if_neg hns
        rw [henter]
        exact .inl ⟨rfl, rfl, fun _ => hns⟩
  · rw [Gate.enter, if_neg hroom]
    exact .inl ⟨rfl, rfl⟩

/-- What a step can do. -/
inductive PlaceStep (kind : GateKind) (limits : GateLimits) (g : Gate) :
    Place → Gate → Place → Prop
  | looked (ns : String) (order : List (String × ℕ)) {g' : Gate} {sem : ℕ}
    (h : g.lookupSem ns order = (g', some sem)) :
    PlaceStep kind limits g (.entered ns) g' (.looked ns sem)
  | full (ns : String) (order : List (String × ℕ)) {g' : Gate}
    (h : g.lookupSem ns order = (g', none)) : PlaceStep kind limits g (.entered ns) g' .refused
  | sent (ns : String) (sem : ℕ) (h : g.len sem < semCapacity limits.perNamespace) :
    PlaceStep kind limits g (.looked ns sem)
      { g with len := Function.update g.len sem (g.len sem + 1) } (.acquired ns (some sem))
  | busy (ns : String) (sem : ℕ) : PlaceStep kind limits g (.looked ns sem) g .refused
  | found (ns : String) (own : Option ℕ) (h : kind = .query) :
    PlaceStep kind limits g (.acquired ns own) g
      (.found ns own (if ns = "" then none else g.sems.lookup ns))
  | freedProbe (ns : String) (sem : ℕ) (h : kind = .probe) :
    PlaceStep kind limits g (.acquired ns (some sem)) (g.releaseNS sem) .freed
  | freedQuery (ns : String) (own : Option ℕ) (sem : ℕ) :
    PlaceStep kind limits g (.found ns own (some sem)) (g.releaseNS sem) .freed
  | nothing (ns : String) (own : Option ℕ) : PlaceStep kind limits g (.found ns own none) g .freed
  | left {p : Place} (h : p = .refused ∨ p = .freed) :
    PlaceStep kind limits g p { g with global := g.global - 1 } .done

lemma step_cases {g g' : Gate} {p p' : Place} {action : GateAction}
    (h : p.step kind limits g action = some (g', p')) : PlaceStep kind limits g p g' p' := by
  revert h
  fun_cases Place.step kind limits g p action
  case case1 heq =>
    rintro ⟨⟩
    exact .looked _ _ heq
  case case2 heq =>
    rintro ⟨⟩
    exact .full _ _ heq
  case case4 hroom =>
    rintro ⟨⟩
    exact .sent _ _ hroom
  case case5 =>
    rintro ⟨⟩
    exact .busy _ _
  case case7 =>
    rintro ⟨⟩
    exact .found _ _ rfl
  case case8 =>
    rintro ⟨⟩
    exact .freedProbe _ _ rfl
  case case10 =>
    rintro ⟨⟩
    exact .freedQuery _ _ _
  case case11 =>
    rintro ⟨⟩
    exact .nothing _ _
  case case13 =>
    rintro ⟨⟩
    exact .left (.inl rfl)
  case case15 =>
    rintro ⟨⟩
    exact .left (.inr rfl)
  case case16 =>
    rintro ⟨⟩
    exact .left (.inr rfl)
  -- the request has no such step, or it has to wait
  all_goals exact fun h => nomatch h

end Cases

end KubeWaf.Subresource
