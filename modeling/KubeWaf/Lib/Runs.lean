import Mathlib.Data.List.Basic

/-!
# Runs of a transition system

A run is a list of events that a partial step function accepts one after the other. An invariant
may depend on the events that are still to come, such as on how many of them are of some kind.
-/

namespace KubeWaf.Lib

variable {σ ε : Type}

/-- The state after a list of events, if each of them is possible. -/
def runEvents (step : σ → ε → Option σ) : List ε → σ → Option σ
  | [], s => some s
  | e :: es, s => (step s e).bind (runEvents step es)

lemma runEvents_append (step : σ → ε → Option σ) (es es' : List ε) (s : σ) :
    runEvents step (es ++ es') s = (runEvents step es s).bind (runEvents step es') := by
  induction es generalizing s with
  | nil => rfl
  | cons e es ih =>
    rw [List.cons_append, runEvents, runEvents, Option.bind_assoc]
    exact congrArg _ (funext ih)

lemma runEvents_invariant {step : σ → ε → Option σ} (P : List ε → σ → Prop)
    (hstep : ∀ e es s s', P (e :: es) s → step s e = some s' → P es s') {es : List ε} {s s' : σ}
    (h : runEvents step es s = some s') (hs : P es s) : P [] s' := by
  induction es generalizing s with
  | nil =>
    obtain rfl : s = s' := Option.some.inj h
    exact hs
  | cons e es ih =>
    obtain ⟨s₁, hs₁, hrest⟩ := Option.bind_eq_some_iff.mp h
    exact ih hrest (hstep e es s s₁ hs hs₁)

end KubeWaf.Lib
