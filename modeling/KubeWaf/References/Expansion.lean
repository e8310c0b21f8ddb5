import KubeWaf.Lib.Expand
import KubeWaf.References.Resolver

/-!
# The expansion behind the resolver

A read-only run of the resolver writes out a listing in the sense of `Lib.expand`: the nodes
are the owners with their references, and a reference contributes one line for each object it
is looked up to, or one for the error of the lookup.
-/

namespace KubeWaf.References

open Lib Seclang

/-- A call of `reconcileRefs`: an owner and the references to expand for it. -/
structure Node where
  refs : List RuleRef
  source : Source
deriving DecidableEq

/-- The node of a WAF. -/
def WAF.node (w : WAF) (typeKind : String) : Node := ⟨w.ruleSetRefs, .waf typeKind w⟩

/-- The node of a RuleSet met during the expansion. -/
def RuleSet.node (rs : RuleSet) : Node := ⟨rs.spec.ruleRefs, .ruleSet "RuleSet" rs⟩

/-- The line of an object that is used: a RuleSet has a listing of its own. -/
def Object.line (o : Object) : Line Node Object ReferenceError :=
  match o.asRuleSet with
  | some rs => .branch o rs.node
  | none => .leaf o

lemma Object.line_out (o : Object) : o.line.out = .inr o := by
  unfold Object.line
  cases o.asRuleSet <;> rfl

section
variable (api : Apimachinery) (c : Cluster)

/-- The line of an object that a reference of `source` is looked up to. -/
def objectLine (ref : RuleRef) (source : Source) (o : Object) :
    Line Node Object ReferenceError :=
  match allowedObject api c o source with
  | some e => .fault ⟨1, ref, .allowedObject e⟩
  | none => o.line

/-- The lines of one reference of `source`. -/
def refLines (source : Source) (ref : RuleRef) : List (Line Node Object ReferenceError) :=
  match lookupRef api c (applyRuleRefDefaults ref source.ns) with
  | .error e => [.fault ⟨0, ref, .lookupRef e⟩]
  | .ok items => items.map (objectLine api c ref source)

/-- The lines of an owner. -/
def nodeLines (v : Node) : List (Line Node Object ReferenceError) :=
  v.refs.flatMap (refLines api c v.source)

end

/-- A listing as the resolver returns it, the objects and the errors apart. -/
def toOutcome (r : List (ReferenceError ⊕ Object)) : Outcome := ⟨itemsOf r, faultsOf r⟩

lemma toOutcome_append (r s : List (ReferenceError ⊕ Object)) :
    toOutcome (r ++ s) = (toOutcome r).append (toOutcome s) := by
  simp [toOutcome, Outcome.append]

lemma asRuleSet_kind {o : Object} {rs : RuleSet} (h : o.asRuleSet = some rs) :
    o.kind = "RuleSet" := by
  unfold Object.asRuleSet at h
  split at h
  · next spec hspec => rw [Object.kind, hspec, Content.kind]
  · cases h

/-! ## A read-only run, loop by loop -/

section
variable {api : Apimachinery} {faults : ℕ → Option UpdateError} {st : State} {rec : Call}
  {E : Node → Option (List (ReferenceError ⊕ Object))}

/-- The listing `r` as the result of a run that left the state alone. -/
def readOnly (st : State) (r : List (ReferenceError ⊕ Object)) : Outcome × State :=
  (toOutcome r, st)

lemma visitObject_readOnly
    (hrec : ∀ refs source, rec refs source st = (E ⟨refs, source⟩).map (readOnly st))
    (ref : RuleRef) (source : Source) (o : Object) :
    visitObject api faults rec false ref source o st =
      (expandLine E (objectLine api st.cluster ref source o)).map (readOnly st) := by
  rw [visitObject, objectLine]
  cases hallowed : allowedObject api st.cluster o source with
  | some e => rfl
  | none =>
    rw [if_neg Bool.false_ne_true, expandObject]
    unfold Object.line
    cases hrs : o.asRuleSet with
    | none => rfl
    | some rs =>
      have hcall : rec rs.spec.ruleRefs (.ruleSet o.kind rs) st =
          (E rs.node).map (readOnly st) := by
        rw [hrec, asRuleSet_kind hrs, RuleSet.node]
      simp only [hcall, expandLine]
      cases E rs.node with
      | none => rfl
      | some b =>
        simp only [Option.map_some, readOnly, toOutcome_append]
        rfl

lemma visitObjects_readOnly
    (hrec : ∀ refs source, rec refs source st = (E ⟨refs, source⟩).map (readOnly st))
    (ref : RuleRef) (source : Source) (items : List Object) :
    visitObjects api faults rec false ref source items st =
      (expandLines E (items.map (objectLine api st.cluster ref source))).map (readOnly st) := by
  induction items with
  | nil => rfl
  | cons o items ih =>
    rw [visitObjects, visitObject_readOnly hrec, List.map_cons, expandLines]
    cases expandLine E (objectLine api st.cluster ref source o) with
    | none => rfl
    | some a =>
      simp only [Option.map_some, readOnly, Option.bind_some, Option.bind_eq_bind]
      rw [ih]
      cases expandLines E (items.map (objectLine api st.cluster ref source)) with
      | none => rfl
      | some b => simp [readOnly, toOutcome_append]

lemma visitRef_readOnly
    (hrec : ∀ refs source, rec refs source st = (E ⟨refs, source⟩).map (readOnly st))
    (source : Source) (ref : RuleRef) :
    visitRef api faults rec false source ref st =
      (expandLines E (refLines api st.cluster source ref)).map (readOnly st) := by
  rw [visitRef, refLines]
  cases lookupRef api st.cluster (applyRuleRefDefaults ref source.ns) with
  | error e => rfl
  | ok items => exact visitObjects_readOnly hrec ref source items

lemma visitRefs_readOnly
    (hrec : ∀ refs source, rec refs source st = (E ⟨refs, source⟩).map (readOnly st))
    (source : Source) (refs : List RuleRef) :
    visitRefs api faults rec false source refs st =
      (expandLines E (refs.flatMap (refLines api st.cluster source))).map (readOnly st) := by
  induction refs with
  | nil => rfl
  | cons ref refs ih =>
    rw [visitRefs, visitRef_readOnly hrec, List.flatMap_cons, expandLines_append]
    cases expandLines E (refLines api st.cluster source ref) with
    | none => rfl
    | some a =>
      simp only [Option.map_some, readOnly, Option.bind_some, Option.bind_eq_bind]
      rw [ih]
      cases expandLines E (refs.flatMap (refLines api st.cluster source)) with
      | none => rfl
      | some b => simp [readOnly, toOutcome_append]

lemma reconcileRefs_readOnly (n : ℕ) (refs : List RuleRef) (source : Source) :
    reconcileRefs api faults false n refs source st =
      (expand (nodeLines api st.cluster) n ⟨refs, source⟩).map (readOnly st) := by
  induction n generalizing refs source with
  | zero => rfl
  | succ n ih => exact visitRefs_readOnly ih source refs

end

lemma resolve_eq_expand (api : Apimachinery) (c : Cluster) (n : ℕ) (v : Node) :
    resolve api c n v.refs v.source = (expand (nodeLines api c) n v).map toOutcome := by
  rw [resolve, reconcileRefs_readOnly]
  cases expand (nodeLines api c) n ⟨v.refs, v.source⟩ <;> rfl

lemma resolve_eq_some {api : Apimachinery} {c : Cluster} {n : ℕ} {v : Node} {out : Outcome}
    (h : resolve api c n v.refs v.source = some out) :
    ∃ r, expand (nodeLines api c) n v = some r ∧ out = toOutcome r := by
  rw [resolve_eq_expand] at h
  obtain ⟨r, hr, hout⟩ := Option.map_eq_some_iff.mp h
  exact ⟨r, hr, hout.symm⟩

end KubeWaf.References
