import KubeWaf.Lib.GoMap
import KubeWaf.Lib.Runs

/-!
# Clients of an object store

A store keeps objects under keys and gives each of them a version. `create` fails on a key that
has an object, and `update` on an object whose version is not the stored one. A client is a program
that sends requests and goes on with the answers. Clients run interleaved, one request at a time,
and any request may be refused.

`Client.Keeps` is the proof obligation of one client: whatever the others have done in the
meantime, within a relation `G` on stores that all of them keep to, its requests keep to `G` and
its result satisfies the postcondition. Clients that each meet it do so together
(`Pool.keeps_of_run`).
-/

namespace KubeWaf.Lib

variable {κ ο α ι : Type} [DecidableEq κ] [DecidableEq ι] {key : κ}

/-! ## Stores -/

/-- An object as a client has it, with the version under which it was read. -/
structure Versioned (ο : Type) where
  object : ο
  version : ℕ

/-- The objects of a store. None of them is ever deleted. -/
abbrev ObjectStore (κ ο : Type) [DecidableEq κ] := GoMap κ (Versioned ο)

inductive ApiError where
  | notFound
  | alreadyExists
  | conflict
  | other (text : String)
  deriving DecidableEq

def ObjectStore.get (s : ObjectStore κ ο) (key : κ) : Except ApiError (Versioned ο) :=
  match s.lookup key with
  | none => .error .notFound
  | some o => .ok o

def ObjectStore.create (s : ObjectStore κ ο) (key : κ) (object : ο) :
    Except ApiError (ObjectStore κ ο) :=
  match s.lookup key with
  | none => .ok (s.insert key ⟨object, 0⟩)
  | some _ => .error .alreadyExists

def ObjectStore.update (s : ObjectStore κ ο) (key : κ) (o : Versioned ο) :
    Except ApiError (ObjectStore κ ο) :=
  match s.lookup key with
  | none => .error .notFound
  | some stored =>
    if stored.version = o.version then .ok (s.insert key ⟨o.object, o.version + 1⟩)
    else .error .conflict

/-! ## Clients -/

/-- A program over a store. It may also ask for random bytes. -/
inductive Client (κ ο α : Type) where
  | done (result : α)
  | get (key : κ) (next : Except ApiError (Versioned ο) → Client κ ο α)
  | create (key : κ) (object : ο) (next : Option ApiError → Client κ ο α)
  | update (key : κ) (o : Versioned ο) (next : Option ApiError → Client κ ο α)
  | random (n : ℕ) (next : Except String (List UInt8) → Client κ ο α)

/-- How a request is answered. -/
inductive Reply where
  /-- The store answers. -/
  | answered
  | refused (text : String)
  /-- The bytes that were drawn. -/
  | drawn (bytes : List UInt8)

/-- One request of a client. -/
def Client.step (s : ObjectStore κ ο) : Client κ ο α → Reply →
    Option (ObjectStore κ ο × Client κ ο α)
  | .get key next, .answered => some (s, next (s.get key))
  | .get _ next, .refused e => some (s, next (.error (.other e)))
  | .create key object next, .answered =>
    match s.create key object with
    | .ok s' => some (s', next none)
    | .error e => some (s, next (some e))
  | .create _ _ next, .refused e => some (s, next (some (.other e)))
  | .update key o next, .answered =>
    match s.update key o with
    | .ok s' => some (s', next none)
    | .error e => some (s, next (some e))
  | .update _ _ next, .refused e => some (s, next (some (.other e)))
  | .random n next, .drawn bytes => if bytes.length = n then some (s, next (.ok bytes)) else none
  | .random _ next, .refused e => some (s, next (.error e))
  | _, _ => none

def Client.result? : Client κ ο α → Option α
  | .done result => some result
  | _ => none

/-- Clients that share a store. -/
structure Pool (ι κ ο α : Type) [DecidableEq κ] where
  store : ObjectStore κ ο
  clients : ι → Client κ ο α

/-- Client `e.1` sends its next request. -/
def Pool.step (p : Pool ι κ ο α) (e : ι × Reply) : Option (Pool ι κ ο α) :=
  ((p.clients e.1).step p.store e.2).map fun r => ⟨r.1, Function.update p.clients e.1 r.2⟩

/-! ## Later stores -/

/-- Between the stores only versions have gone up: an object of the same version is the same. -/
def ObjectStore.Later (s s' : ObjectStore κ ο) : Prop :=
  ∀ key o, s.lookup key = some o → ∃ o', s'.lookup key = some o' ∧ o.version ≤ o'.version ∧
    (o'.version = o.version → o' = o)

lemma ObjectStore.Later.refl (s : ObjectStore κ ο) : s.Later s :=
  fun _ o ho => ⟨o, ho, le_refl _, fun _ => rfl⟩

lemma ObjectStore.Later.trans {s₁ s₂ s₃ : ObjectStore κ ο} (h : s₁.Later s₂)
    (h' : s₂.Later s₃) : s₁.Later s₃ := by
  intro key o ho
  obtain ⟨o₂, ho₂, hle, hsame⟩ := h key o ho
  obtain ⟨o₃, ho₃, hle', hsame'⟩ := h' key o₂ ho₂
  refine ⟨o₃, ho₃, Nat.le_trans hle hle', fun heq => ?_⟩
  have hmid : o₂.version = o.version := by omega
  rw [hsame' (heq.trans hmid.symm), hsame hmid]

lemma create_eq_ok {s s' : ObjectStore κ ο} {object : ο} :
    s.create key object = .ok s' ↔ s.lookup key = none ∧ s.insert key ⟨object, 0⟩ = s' := by
  rw [ObjectStore.create]
  cases s.lookup key with
  | none => simp
  | some o => simp

lemma update_eq_ok {s s' : ObjectStore κ ο} {o : Versioned ο} :
    s.update key o = .ok s' ↔ ∃ stored, s.lookup key = some stored ∧
      stored.version = o.version ∧ s.insert key ⟨o.object, o.version + 1⟩ = s' := by
  rw [ObjectStore.update]
  cases s.lookup key with
  | none => simp
  | some stored =>
    by_cases hversion : stored.version = o.version
    · simp [hversion]
    · simp [hversion]

lemma later_create {s s' : ObjectStore κ ο} {object : ο} (h : s.create key object = .ok s') :
    s.Later s' := by
  obtain ⟨hnone, rfl⟩ := (create_eq_ok).mp h
  intro k o ho
  have hk : k ≠ key := by
    rintro rfl
    rw [hnone] at ho
    cases ho
  exact ⟨o, by rw [AList.lookup_insert_ne hk, ho], le_refl _, fun _ => rfl⟩

lemma later_update {s s' : ObjectStore κ ο} {o : Versioned ο} (h : s.update key o = .ok s') :
    s.Later s' := by
  obtain ⟨stored, hstored, hversion, rfl⟩ := (update_eq_ok).mp h
  intro k o' ho'
  by_cases hk : k = key
  · subst hk
    obtain rfl : stored = o' := Option.some.inj (hstored.symm.trans ho')
    refine ⟨_, AList.lookup_insert _, ?_, ?_⟩
    · show stored.version ≤ o.version + 1
      omega
    · intro heq
      have : o.version + 1 = stored.version := heq
      omega
  · exact ⟨o', by rw [AList.lookup_insert_ne hk, ho'], le_refl _, fun _ => rfl⟩

/-! ## What a client keeps to -/

section Keeps

variable (G : ObjectStore κ ο → ObjectStore κ ο → Prop) (Q : ObjectStore κ ο → α → Prop)

/-- A store that the clients may leave behind `s`. -/
def Reaches (s s' : ObjectStore κ ο) : Prop := s.Later s' ∧ G s s'

/-- A client that has last seen the store `s` keeps to `G` and ends with `Q`. -/
def Client.Keeps : Client κ ο α → ObjectStore κ ο → Prop
  | .done a, s => ∀ s', Reaches G s s' → Q s' a
  | .get key next, s => ∀ s', Reaches G s s' →
    (next (s'.get key)).Keeps s' ∧ ∀ e, (next (.error (.other e))).Keeps s'
  | .create key object next, s => ∀ s', Reaches G s s' →
    (∀ s'', s'.create key object = .ok s'' → G s' s'' ∧ (next none).Keeps s'') ∧
    ∀ e, (s'.create key object = .error e ∨ ∃ text, e = .other text) → (next (some e)).Keeps s'
  | .update key o next, s => ∀ s', Reaches G s s' →
    (∀ s'', s'.update key o = .ok s'' → G s' s'' ∧ (next none).Keeps s'') ∧
    ∀ e, (s'.update key o = .error e ∨ ∃ text, e = .other text) → (next (some e)).Keeps s'
  | .random n next, s => ∀ s', Reaches G s s' →
    (∀ bytes, bytes.length = n → (next (.ok bytes)).Keeps s') ∧ ∀ e, (next (.error e)).Keeps s'

variable {G Q} (hrefl : ∀ s, G s s) (htrans : ∀ s₁ s₂ s₃, G s₁ s₂ → G s₂ s₃ → G s₁ s₃)
  {s s' : ObjectStore κ ο} {c : Client κ ο α}
include htrans

lemma Client.Keeps.mono (h : c.Keeps G Q s) (hs : Reaches G s s') : c.Keeps G Q s' := by
  have hreach : ∀ s'', Reaches G s' s'' → Reaches G s s'' :=
    fun s'' hs' => ⟨hs.1.trans hs'.1, htrans _ _ _ hs.2 hs'.2⟩
  cases c with
  | done a => exact fun s'' hs' => h s'' (hreach s'' hs')
  | get key next => exact fun s'' hs' => h s'' (hreach s'' hs')
  | create key object next => exact fun s'' hs' => h s'' (hreach s'' hs')
  | update key o next => exact fun s'' hs' => h s'' (hreach s'' hs')
  | random n next => exact fun s'' hs' => h s'' (hreach s'' hs')

omit htrans
include hrefl

lemma Client.Keeps.step {c' : Client κ ο α} {reply : Reply} (h : c.Keeps G Q s)
    (hstep : c.step s reply = some (s', c')) : Reaches G s s' ∧ c'.Keeps G Q s' := by
  have hself : Reaches G s s := ⟨.refl s, hrefl s⟩
  cases c with
  | done a => cases hstep
  | get key next =>
    cases reply with
    | answered =>
      obtain ⟨rfl, rfl⟩ := Prod.mk.inj (Option.some.inj hstep)
      exact ⟨hself, (h s hself).1⟩
    | refused e =>
      obtain ⟨rfl, rfl⟩ := Prod.mk.inj (Option.some.inj hstep)
      exact ⟨hself, (h s hself).2 e⟩
    | drawn bytes => cases hstep
  | create key object next =>
    cases reply with
    | answered =>
      cases hcreate : s.create key object with
      | ok s'' =>
        simp only [Client.step, hcreate, Option.some.injEq, Prod.mk.injEq] at hstep
        obtain ⟨rfl, rfl⟩ := hstep
        obtain ⟨hG, hnext⟩ := (h s hself).1 s'' hcreate
        exact ⟨⟨later_create hcreate, hG⟩, hnext⟩
      | error e =>
        simp only [Client.step, hcreate, Option.some.injEq, Prod.mk.injEq] at hstep
        obtain ⟨rfl, rfl⟩ := hstep
        exact ⟨hself, (h s hself).2 e (.inl hcreate)⟩
    | refused e =>
      obtain ⟨rfl, rfl⟩ := Prod.mk.inj (Option.some.inj hstep)
      exact ⟨hself, (h s hself).2 _ (.inr ⟨e, rfl⟩)⟩
    | drawn bytes => cases hstep
  | update key o next =>
    cases reply with
    | answered =>
      cases hupdate : s.update key o with
      | ok s'' =>
        simp only [Client.step, hupdate, Option.some.injEq, Prod.mk.injEq] at hstep
        obtain ⟨rfl, rfl⟩ := hstep
        obtain ⟨hG, hnext⟩ := (h s hself).1 s'' hupdate
        exact ⟨⟨later_update hupdate, hG⟩, hnext⟩
      | error e =>
        simp only [Client.step, hupdate, Option.some.injEq, Prod.mk.injEq] at hstep
        obtain ⟨rfl, rfl⟩ := hstep
        exact ⟨hself, (h s hself).2 e (.inl hupdate)⟩
    | refused e =>
      obtain ⟨rfl, rfl⟩ := Prod.mk.inj (Option.some.inj hstep)
      exact ⟨hself, (h s hself).2 _ (.inr ⟨e, rfl⟩)⟩
    | drawn bytes => cases hstep
  | random n next =>
    cases reply with
    | answered => cases hstep
    | refused e =>
      obtain ⟨rfl, rfl⟩ := Prod.mk.inj (Option.some.inj hstep)
      exact ⟨hself, (h s hself).2 e⟩
    | drawn bytes =>
      by_cases hlength : bytes.length = n
      · rw [Client.step, if_pos hlength] at hstep
        obtain ⟨rfl, rfl⟩ := Prod.mk.inj (Option.some.inj hstep)
        exact ⟨hself, (h s hself).1 bytes hlength⟩
      · rw [Client.step, if_neg hlength] at hstep
        cases hstep

include htrans

lemma Pool.keeps_of_run {p p' : Pool ι κ ο α} {events : List (ι × Reply)}
    (h : ∀ i, (p.clients i).Keeps G Q p.store) (hrun : runEvents Pool.step events p = some p') :
    Reaches G p.store p'.store ∧ ∀ i, (p'.clients i).Keeps G Q p'.store := by
  refine runEvents_invariant (fun _ q => Reaches G p.store q.store ∧
    ∀ i, (q.clients i).Keeps G Q q.store) ?_ hrun ⟨⟨.refl _, hrefl _⟩, h⟩
  rintro ⟨i, reply⟩ _ q q' ⟨hreach, hkeeps⟩ hstep
  obtain ⟨⟨s', c'⟩, hc', rfl⟩ := Option.map_eq_some_iff.mp hstep
  obtain ⟨hs', hi⟩ := (hkeeps i).step hrefl hc'
  refine ⟨⟨hreach.1.trans hs'.1, htrans _ _ _ hreach.2 hs'.2⟩, fun j => ?_⟩
  show (Function.update q.clients i c' j).Keeps G Q s'
  by_cases hj : j = i
  · rw [hj, Function.update_self]
    exact hi
  · rw [Function.update_of_ne hj]
    exact (hkeeps j).mono htrans hs'

omit htrans

lemma Client.Keeps.result {a : α} (h : c.Keeps G Q s) (hresult : c.result? = some a) : Q s a := by
  cases c with
  | done b =>
    obtain rfl : b = a := Option.some.inj hresult
    exact h s ⟨.refl s, hrefl s⟩
  | get key next => cases hresult
  | create key object next => cases hresult
  | update key o next => cases hresult
  | random n next => cases hresult

end Keeps

end KubeWaf.Lib
