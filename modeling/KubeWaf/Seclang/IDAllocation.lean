import KubeWaf.Seclang.IDPoolSafety

/-!
# Allocation of the ids of one SecRule

`allocateIDs` of `internal/controller/seclang/id_pool.go` as one run, with the client that it reads
and updates the pool by as a parameter. `IDPool` has the same code cut into the steps at which
other reconciles may come between. Go's `int` is an integer here: a pool does not end at the
largest one.
-/

namespace KubeWaf.Seclang

open Lib

/-! ## The client -/

/-- What `apierrors.IsNotFound`, `IsAlreadyExists` and `IsConflict` tell of an error. -/
inductive APIReason where
  | notFound
  | alreadyExists
  | conflict
  | other
  deriving DecidableEq

/-- An error of the API server. -/
structure APIError where
  reason : APIReason
  message : String
  deriving DecidableEq

/-- A client of the API server, as far as the pool `cluster` goes: `σ` is the state of the cluster,
and every call may find that it has changed. An object that is written comes back as it is
stored. -/
structure PoolClient (σ : Type) where
  /-- The pool that the API server holds. -/
  stored : σ → SecRuleIDPool
  get : σ → Except APIError SecRuleIDPool × σ
  create : SecRuleIDPool → σ → Except APIError SecRuleIDPool × σ
  updateStatus : SecRuleIDPool → σ → Except APIError SecRuleIDPool × σ
  /-- An update that is not rejected is stored. -/
  stored_updateStatus : ∀ pool s written, (updateStatus pool s).1 = .ok written →
    (stored (updateStatus pool s).2).nextID = pool.nextID

section
variable {σ : Type} (client : PoolClient σ)

/-- The end of `ensureClusterIDPool`, behind a create: the cursor is set, and an error of that
update is ignored. -/
def initializeNextID (pool : SecRuleIDPool) (s : σ) : SecRuleIDPool × σ :=
  let pool := { pool with nextID := pool.effectiveMin }
  match client.updateStatus pool s with
  | (.ok written, s) => (written, s)
  | (.error _, s) => (pool, s)

def ensureClusterIDPool (s : σ) : Except APIError SecRuleIDPool × σ :=
  match client.get s with
  | (.ok pool, s) => (.ok pool, s)
  | (.error e, s) =>
    if e.reason ≠ .notFound then (.error e, s)
    else match client.create { minID := 100000, maxID := 999999 } s with
      | (.ok pool, s) =>
        let (pool, s) := initializeNextID client pool s
        (.ok pool, s)
      | (.error e, s) => if e.reason = .alreadyExists then client.get s else (.error e, s)

/-- The attempts of `allocateOne`, of which `n` are left. -/
def allocateAttempts (used : Finset Int) : ℕ → σ → Except String Int × σ
  | 0, s => (.error "SecRuleIDPool allocate: too many conflicts", s)
  | n + 1, s =>
    match ensureClusterIDPool client s with
    | (.error e, s) => (.error e.message, s)
    | (.ok pool, s) =>
      match allocation pool used with
      | .error e => (.error e, s)
      | .ok (id, pool) =>
        match client.updateStatus pool s with
        | (.ok _, s) => (.ok id, s)
        | (.error e, s) =>
          if e.reason = .conflict then allocateAttempts used n s else (.error e.message, s)

def allocateOne (used : Finset Int) (s : σ) : Except String Int × σ :=
  allocateAttempts client used 32 s

/-- `resolveOneID(sr, metaID, index, used)`; the second component is `used` afterwards. -/
def resolveOneID (sr : StoredRule) (metaID : Int) (index : ℕ) (used : Finset Int) (s : σ) :
    Except String (Int × IDSource) × Finset Int × σ :=
  match fixedID sr metaID index with
  | some (id, source) => (.ok (id, source), insert id used, s)
  | none =>
    match allocateOne client used s with
    | (.error e, s) => (.error e, used, s)
    | (.ok id, s) => (.ok (id, .auto), insert id used, s)

/-- The loop of `allocateIDs` over the `metadata.id` of the entries, from the entry `index` on. -/
def resolveEntries (sr : StoredRule) :
    List Int → ℕ → Finset Int → σ → Except String (List (Int × IDSource)) × Finset Int × σ
  | [], _, used, s => (.ok [], used, s)
  | m :: todo, index, used, s =>
    match resolveOneID client sr m index used s with
    | (.error e, used, s) => (.error e, used, s)
    | (.ok entry, used, s) =>
      match resolveEntries sr todo (index + 1) used s with
      | (.error e, used, s) => (.error e, used, s)
      | (.ok entries, used, s) => (.ok (entry :: entries), used, s)

/-- What `allocateIDs` returns. -/
structure AssignedIDs where
  assigned : List Int
  primary : Int
  idSource : Option IDSource
  deriving DecidableEq

/-- `allocateIDs(sr, used)`; the second component is `used` afterwards. In the single-rule form
there is one entry, whose source is that of the SecRule. -/
def allocateIDs (sr : StoredRule) (used : Finset Int) (s : σ) :
    Except String AssignedIDs × Finset Int × σ :=
  match resolveEntries client sr sr.spec.entryIDs 0 (freeSelfClaims sr used) s with
  | (.error e, used, s) => (.error e, used, s)
  | (.ok entries, used, s) =>
    (.ok { assigned := entries.map (·.1), primary := primaryID entries, idSource := idSource entries },
      used, s)

end

/-! ## The range of the pool -/

lemma allocation_ok {pool pool' : SecRuleIDPool} {used : Finset Int} {id : Int}
    (h : allocation pool used = .ok (id, pool')) :
    pool.effectiveMin ≤ id ∧ id ∉ used
      ∧ (id ≤ pool.effectiveMax ∨ id < pool.cursor ∧ ∀ y, pool.effectiveMin ≤ y → y < id → y ∈ used)
      ∧ pool'.nextID = if pool.effectiveMax < id + 1 then pool.effectiveMin else id + 1 := by
  have hmin := effectiveMin_le_cursor pool
  rw [allocation] at h
  split_ifs at h with hrange
  cases hfirst : findFree pool.cursor pool.effectiveMax used with
  | some found =>
    rw [hfirst, Option.orElse_eq_orElse, Option.orElse_eq_or, Option.some_or] at h
    obtain ⟨rfl, rfl⟩ := Prod.mk.inj (Except.ok.inj h)
    obtain ⟨hle, hlt, hfree, -⟩ := findFreeFrom_eq_some hfirst
    exact ⟨by omega, hfree, Or.inl (by omega), rfl⟩
  | none =>
    rw [hfirst, Option.orElse_eq_orElse, Option.orElse_eq_or, Option.none_or] at h
    cases hsecond : findFree pool.effectiveMin (pool.cursor - 1) used with
    | none => simp [hsecond] at h
    | some found =>
      rw [hsecond] at h
      obtain ⟨rfl, rfl⟩ := Prod.mk.inj (Except.ok.inj h)
      obtain ⟨hle, hlt, hfree, hbelow⟩ := findFreeFrom_eq_some hsecond
      exact ⟨hle, hfree, Or.inr ⟨by omega, hbelow⟩, rfl⟩

lemma allocation_error {pool : SecRuleIDPool} {used : Finset Int} {e : String}
    (hrange : pool.effectiveMin ≤ pool.effectiveMax) (h : allocation pool used = .error e) {y : Int}
    (hy : pool.effectiveMin ≤ y) (hlast : y ≤ pool.effectiveMax ∨ y < pool.cursor) : y ∈ used := by
  rw [allocation, if_neg (by omega)] at h
  cases hfirst : findFree pool.cursor pool.effectiveMax used with
  | some found =>
    simp [hfirst] at h
  | none =>
    cases hsecond : findFree pool.effectiveMin (pool.cursor - 1) used with
    | some found =>
      simp [hfirst, hsecond] at h
    | none =>
      -- the second search ends where the first one has begun
      by_cases hcursor : y < pool.cursor
      · exact findFreeFrom_eq_none hsecond hy (by omega)
      · exact findFreeFrom_eq_none hfirst (by omega) (by omega)

section
variable {σ : Type} (client : PoolClient σ)

/-- The outcome of `allocateOne` keeps to the range of the pool that it has read. -/
def RespectsRange (pool : SecRuleIDPool) (used : Finset Int) : Except String Int × σ → Prop
  | (.ok id, s) =>
    pool.effectiveMin ≤ id ∧ id ≤ pool.effectiveMax ∧ id ∉ used
      ∧ pool.effectiveMin ≤ (client.stored s).nextID
      ∧ (client.stored s).nextID ≤ pool.effectiveMax
  | (.error _, _) => ∀ id, pool.effectiveMin ≤ id → id ≤ pool.effectiveMax → id ∈ used

lemma allocateOne_eq {pool : SecRuleIDPool} {used : Finset Int} {s t : σ}
    (hread : ensureClusterIDPool client s = (.ok pool, t))
    (haccepted : ∀ p, ∃ written, (client.updateStatus p t).1 = .ok written) :
    allocateOne client used s =
      match allocation pool used with
      | .error e => (.error e, t)
      | .ok (id, pool') => (.ok id, (client.updateStatus pool' t).2) := by
  rw [allocateOne, allocateAttempts, hread]
  cases halloc : allocation pool used with
  | error e => simp [halloc]
  | ok granted =>
    obtain ⟨written, hwritten⟩ := haccepted granted.2
    have hupdate : client.updateStatus granted.2 t
        = (.ok written, (client.updateStatus granted.2 t).2) := Prod.ext hwritten rfl
    simp only [halloc]
    rw [hupdate]

end

/-- A cluster in which nothing but this reconcile touches the pool. -/
def quietClient : PoolClient SecRuleIDPool where
  stored := id
  get pool := (.ok pool, pool)
  create _ pool := (.error ⟨.alreadyExists, "secruleidpools \"cluster\" already exists"⟩, pool)
  updateStatus written _ := (.ok written, written)
  stored_updateStatus := by
    intro pool s written h
    rfl

/-- A bag of a rule with the id 500 and one without an id. -/
def mixedBag : StoredRule where
  spec := { secRules := [{ metadata := some { id := 500 } }, {}] }

/-! ## What a run returns -/

section
variable {σ : Type} {client : PoolClient σ} {sr : StoredRule} {used used' : Finset Int} {s s' : σ}
  {entries : List (Int × IDSource)}

lemma allocateAttempts_ok {n : ℕ} {id : Int}
    (h : allocateAttempts client used n s = (.ok id, s')) : 0 < id ∧ id ∉ used := by
  induction n generalizing s with
  | zero => exact absurd (congrArg Prod.fst h) (by simp [allocateAttempts])
  | succ n ih =>
    rw [allocateAttempts] at h
    split at h
    · exact absurd (congrArg Prod.fst h) (by simp)
    · next pool s₁ _ =>
      split at h
      · exact absurd (congrArg Prod.fst h) (by simp)
      · next granted pool' halloc =>
        split at h
        · obtain rfl : granted = id := Except.ok.inj (congrArg Prod.fst h)
          obtain ⟨hmin, hfree, -⟩ := allocation_ok halloc
          have hpos := effectiveMin_pos pool
          exact ⟨by omega, hfree⟩
        · split_ifs at h
          · exact ih h
          · exact absurd (congrArg Prod.fst h) (by simp)

lemma resolveOneID_ok {m : Int} {i : ℕ} {entry : Int × IDSource}
    (h : resolveOneID client sr m i used s = (.ok entry, used', s')) :
    used' = insert entry.1 used
      ∧ (fixedID sr m i = some entry
        ∨ fixedID sr m i = none ∧ entry.2 = .auto ∧ 0 < entry.1 ∧ entry.1 ∉ used) := by
  rw [resolveOneID] at h
  split at h
  · next id source hfixed =>
    obtain ⟨hentry, hrest⟩ := Prod.mk.inj h
    obtain rfl := Except.ok.inj hentry
    exact ⟨(Prod.mk.inj hrest).1.symm, Or.inl hfixed⟩
  · next hfixed =>
    split at h
    · exact absurd (congrArg Prod.fst h) (by simp)
    · next id s₁ halloc =>
      obtain ⟨hentry, hrest⟩ := Prod.mk.inj h
      obtain rfl := Except.ok.inj hentry
      exact ⟨(Prod.mk.inj hrest).1.symm, Or.inr ⟨hfixed, rfl, allocateAttempts_ok halloc⟩⟩

lemma resolveEntries_cons_ok {m : Int} {todo : List Int} {i : ℕ}
    (h : resolveEntries client sr (m :: todo) i used s = (.ok entries, used', s')) :
    ∃ entry rest used₁ s₁, entries = entry :: rest
      ∧ resolveOneID client sr m i used s = (.ok entry, used₁, s₁)
      ∧ resolveEntries client sr todo (i + 1) used₁ s₁ = (.ok rest, used', s') := by
  rw [resolveEntries] at h
  split at h
  · exact absurd (congrArg Prod.fst h) (by simp)
  · next entry used₁ s₁ hentry =>
    split at h
    · exact absurd (congrArg Prod.fst h) (by simp)
    · next rest used₂ s₂ hrest =>
      obtain ⟨hentries, hused⟩ := Prod.mk.inj h
      exact ⟨entry, rest, used₁, s₁, (Except.ok.inj hentries).symm, hentry, hrest.trans (by rw [hused])⟩

lemma resolveEntries_ok {todo : List Int} {k : ℕ}
    (h : resolveEntries client sr todo k used s = (.ok entries, used', s')) :
    entries.length = todo.length
      ∧ ∀ (i : ℕ) (m : Int), todo[i]? = some m → ∃ entry, entries[i]? = some entry
        ∧ (fixedID sr m (k + i) = some entry
          ∨ fixedID sr m (k + i) = none ∧ entry.2 = .auto ∧ 0 < entry.1 ∧ entry.1 ∉ used
            ∧ ∀ j < i, ∀ e, entries[j]? = some e → e.1 ≠ entry.1) := by
  induction todo generalizing k used s entries with
  | nil =>
    obtain rfl : [] = entries := Except.ok.inj (congrArg Prod.fst h)
    exact ⟨rfl, fun i m hm => absurd hm (by simp)⟩
  | cons m todo ih =>
    obtain ⟨entry, rest, used₁, s₁, rfl, hentry, hrest⟩ := resolveEntries_cons_ok h
    obtain ⟨rfl, hcase⟩ := resolveOneID_ok hentry
    obtain ⟨hlength, hall⟩ := ih hrest
    refine ⟨by rw [List.length_cons, List.length_cons, hlength], ?_⟩
    intro i m' hm'
    cases i with
    | zero =>
      rw [List.getElem?_cons_zero] at hm'
      obtain rfl := Option.some.inj hm'
      refine ⟨entry, rfl, hcase.imp id ?_⟩
      intro hnew
      exact ⟨hnew.1, hnew.2.1, hnew.2.2.1, hnew.2.2.2, fun j hj => absurd hj (Nat.not_lt_zero j)⟩
    | succ i =>
      rw [List.getElem?_cons_succ] at hm'
      obtain ⟨found, hfound, hcase'⟩ := hall i m' hm'
      rw [show k + 1 + i = k + (i + 1) from by omega] at hcase'
      refine ⟨found, hfound, hcase'.imp id ?_⟩
      intro hnew
      obtain ⟨hnone, hauto, hpos, hfree, hdiff⟩ := hnew
      -- the id of the entry before is used by now
      rw [Finset.mem_insert, not_or] at hfree
      refine ⟨hnone, hauto, hpos, hfree.2, ?_⟩
      intro j hj e he
      cases j with
      | zero =>
        obtain rfl := Option.some.inj he
        exact fun heq => hfree.1 heq.symm
      | succ j => exact hdiff j (by omega) e he

lemma allocateIDs_ok {result : AssignedIDs}
    (h : allocateIDs client sr used s = (.ok result, used', s')) :
    ∃ entries, resolveEntries client sr sr.spec.entryIDs 0 (freeSelfClaims sr used) s
        = (.ok entries, used', s')
      ∧ result = ⟨entries.map (·.1), primaryID entries, idSource entries⟩ := by
  rw [allocateIDs] at h
  split at h
  · exact absurd (congrArg Prod.fst h) (by simp)
  · next entries used₁ s₁ hloop =>
    obtain ⟨hresult, hrest⟩ := Prod.mk.inj h
    exact ⟨entries, hloop.trans (by rw [hrest]), (Except.ok.inj hresult).symm⟩

end

end KubeWaf.Seclang
