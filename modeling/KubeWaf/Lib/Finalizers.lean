import Mathlib.Data.List.Basic

/-!
# Objects with finalizers

An object that is deleted while it has finalizers is only marked, and goes away with the last of
them. A marked object takes no new finalizers.
-/

namespace KubeWaf.Lib

open List

variable {ο : Type}

@[ext] structure Finalized (ο : Type) where
  object : ο
  finalizers : List String := []
  deleting : Bool := false
  held : deleting = true → finalizers ≠ []

namespace Finalized

/-- A new object. -/
def new (object : ο) : Finalized ο where
  object := object
  held h := by cases h

/-- `none` is an object that is gone. -/
def delete (x : Finalized ο) : Option (Finalized ο) :=
  if h : x.finalizers = [] then none else some { x with deleting := true, held := fun _ => h }

def addFinalizer (x : Finalized ο) (finalizer : String) : Finalized ο :=
  if finalizer ∈ x.finalizers ∨ x.deleting = true then x
  else
    { x with
      finalizers := x.finalizers ++ [finalizer]
      held := fun _ => append_ne_nil_of_right_ne_nil _ (cons_ne_nil _ _) }

def removeFinalizers (x : Finalized ο) (finalizers : List String) : Option (Finalized ο) :=
  let rest := x.finalizers.filter (· ∉ finalizers)
  if h : x.deleting = true ∧ rest = [] then none
  else some { x with finalizers := rest, held := fun hdeleting hrest => h ⟨hdeleting, hrest⟩ }

/-- The finalizers and the mark stay. -/
def withObject (x : Finalized ο) (object : ο) : Finalized ο := { x with object }

variable {x y : Finalized ο} {f : String}

lemma delete_eq_some (h : x.delete = some y) :
    y.object = x.object ∧ y.finalizers = x.finalizers ∧ y.deleting = true := by
  unfold delete at h
  split at h
  · cases h
  · cases h
    exact ⟨rfl, rfl, rfl⟩

lemma exists_delete (h : f ∈ x.finalizers) : ∃ y, x.delete = some y := by
  unfold delete
  rw [dif_neg (ne_nil_of_mem h)]
  exact ⟨_, rfl⟩

@[simp] lemma addFinalizer_deleting (x : Finalized ο) (f : String) :
    (x.addFinalizer f).deleting = x.deleting := by
  unfold addFinalizer
  split <;> rfl

lemma mem_addFinalizer {g : String} (h : f ∈ x.finalizers) :
    f ∈ (x.addFinalizer g).finalizers := by
  unfold addFinalizer
  split
  · exact h
  · exact mem_append_left _ h

lemma mem_addFinalizer_self (h : x.deleting = false) : f ∈ (x.addFinalizer f).finalizers := by
  unfold addFinalizer
  split
  case isTrue hmem =>
    obtain hmem | hdeleting := hmem
    · exact hmem
    · rw [h] at hdeleting
      cases hdeleting
  · exact mem_append_right _ mem_cons_self

lemma removeFinalizers_eq_some {fs : List String} (h : x.removeFinalizers fs = some y) :
    y.object = x.object ∧ y.deleting = x.deleting ∧
      ∀ g, g ∈ y.finalizers ↔ g ∈ x.finalizers ∧ g ∉ fs := by
  unfold removeFinalizers at h
  simp only at h
  split at h
  · cases h
  · cases h
    refine ⟨rfl, rfl, fun g => ?_⟩
    rw [mem_filter, decide_eq_true_eq]

lemma exists_removeFinalizers (h : x.deleting = false) (fs : List String) :
    ∃ y, x.removeFinalizers fs = some y := by
  unfold removeFinalizers
  simp only [h, Bool.false_eq_true, false_and, dite_false]
  exact ⟨_, rfl⟩

end Finalized

end KubeWaf.Lib
