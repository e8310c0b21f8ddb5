import KubeWaf.Lib.ObjectStore

/-!
# A store with one revision for all objects

Every write gives the written object the next revision of the store as its version, so a version
is used once, for whatever key and also when an object is deleted and created again. A client that
writes an object back names the version it has read (`replace`), and is refused if the object has
changed since.
-/

namespace KubeWaf.Lib

variable {κ ο : Type} [DecidableEq κ]

/-- Another object under the version that was read. -/
def Versioned.map (f : ο → ο) (o : Versioned ο) : Versioned ο := ⟨f o.object, o.version⟩

structure RevisionStore (κ ο : Type) [DecidableEq κ] where
  objects : GoMap κ (Versioned ο) := ∅
  revision : ℕ := 0
  bounded : ∀ k o, objects.lookup k = some o → o.version ≤ revision

namespace RevisionStore

def empty : RevisionStore κ ο where
  bounded k o h := by cases h

def lookup (s : RevisionStore κ ο) (k : κ) : Option (Versioned ο) := s.objects.lookup k

/-- Write an object, whatever is there. -/
def put (s : RevisionStore κ ο) (k : κ) (object : ο) : RevisionStore κ ο where
  objects := s.objects.insert k ⟨object, s.revision + 1⟩
  revision := s.revision + 1
  bounded k' o h := by
    by_cases hk : k' = k
    · rw [hk, AList.lookup_insert] at h
      rw [← Option.some.inj h]
    · rw [AList.lookup_insert_ne hk] at h
      exact Nat.le_succ_of_le (s.bounded k' o h)

def remove (s : RevisionStore κ ο) (k : κ) : RevisionStore κ ο where
  objects := s.objects.erase k
  revision := s.revision + 1
  bounded k' o h := by
    by_cases hk : k' = k
    · rw [hk, AList.lookup_erase] at h
      cases h
    · rw [AList.lookup_erase_ne hk] at h
      exact Nat.le_succ_of_le (s.bounded k' o h)

/-- Write an object back that was read under some version: what is stored is made from the stored
object. `none` is a conflict, or an object that is gone. -/
def replace (s : RevisionStore κ ο) (k : κ) (version : ℕ) (new : ο → ο) :
    Option (RevisionStore κ ο) :=
  match s.lookup k with
  | none => none
  | some o => if o.version = version then some (s.put k (new o.object)) else none

variable (s : RevisionStore κ ο)

@[simp] lemma lookup_put_self (k : κ) (object : ο) :
    (s.put k object).lookup k = some ⟨object, s.revision + 1⟩ :=
  AList.lookup_insert _

lemma lookup_put_of_ne {k k' : κ} (object : ο) (h : k' ≠ k) :
    (s.put k object).lookup k' = s.lookup k' :=
  AList.lookup_insert_ne h

@[simp] lemma lookup_remove_self (k : κ) : (s.remove k).lookup k = none :=
  AList.lookup_erase _ _

lemma lookup_remove_of_ne {k k' : κ} (h : k' ≠ k) : (s.remove k).lookup k' = s.lookup k' :=
  AList.lookup_erase_ne h

lemma replace_eq_some {s s' : RevisionStore κ ο} {k : κ} {version : ℕ} {new : ο → ο} :
    s.replace k version new = some s' ↔
      ∃ o, s.lookup k = some o ∧ o.version = version ∧ s' = s.put k (new o.object) := by
  rw [replace]
  cases s.lookup k with
  | none => simp
  | some o =>
    by_cases hversion : o.version = version
    · simp [hversion, eq_comm]
    · simp [hversion]

/-! ## Copies -/

/-- `c` was once stored under `k`, or is stored there still: as long as its version is the stored
one, it is the stored object. -/
def Seen (s : RevisionStore κ ο) (k : κ) (c : Versioned ο) : Prop :=
  c.version ≤ s.revision ∧ ∀ o, s.lookup k = some o → o.version = c.version → o = c

lemma seen_of_lookup {s : RevisionStore κ ο} {k : κ} {o : Versioned ο} (h : s.lookup k = some o) :
    s.Seen k o :=
  ⟨s.bounded k o h, fun _ ho _ => Option.some.inj (ho.symm.trans h)⟩

variable {s : RevisionStore κ ο} {k : κ} {c : Versioned ο}

lemma Seen.put (h : s.Seen k c) (k' : κ) (object : ο) : (s.put k' object).Seen k c := by
  refine ⟨Nat.le_succ_of_le h.1, fun o ho hversion => ?_⟩
  by_cases hk : k = k'
  · rw [hk, lookup_put_self] at ho
    -- the version is one that no copy can have
    have hnew : o.version = s.revision + 1 := by rw [← Option.some.inj ho]
    have hle := h.1
    omega
  · rw [lookup_put_of_ne s object hk] at ho
    exact h.2 o ho hversion

lemma Seen.remove (h : s.Seen k c) (k' : κ) : (s.remove k').Seen k c := by
  refine ⟨Nat.le_succ_of_le h.1, fun o ho hversion => ?_⟩
  by_cases hk : k = k'
  · rw [hk, lookup_remove_self] at ho
    cases ho
  · rw [lookup_remove_of_ne s hk] at ho
    exact h.2 o ho hversion

end RevisionStore

end KubeWaf.Lib
