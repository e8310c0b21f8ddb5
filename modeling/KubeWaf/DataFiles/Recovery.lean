import KubeWaf.DataFiles.FileNameRaces
import Mathlib.Data.Countable.Basic
import Mathlib.Logic.Equiv.List

/-!
# Lists that wait for a file name

The work queues of the PhraseList and the IPList controller. `SetupWithManager` watches the own kind
and the ConfigMaps, so a list is queued when it is written itself or a ConfigMap that it uses
changes, and not when the owner of its file name goes away. A reconcile is taken as a whole: what
comes between its requests is the subject of `FileNameRaces`.
-/

namespace KubeWaf.DataFiles.Ownership

open Lib

/-- `phraseListUsesConfigMap` and `ipListUsesConfigMap` -/
def usesConfigMap (l : DataList) (name : String) : Bool :=
  l.configMapRef.any (·.name = name) || l.parts.any (·.name = name)

/-- The requests of a reconcile one after the other, `n` at most. -/
def finish (hash : Bytes → String) (key : ListKey) : ℕ → Store → Flight → Store
  | 0, s, _ => s
  | n + 1, s, flight =>
    match advance hash s key flight with
    | (s', none) => s'
    | (s', some next) => finish hash key n s' next

/-- A whole `Reconcile`, which makes five requests at most after its first `Get`. -/
def reconciled (hash : Bytes → String) (configMaps : List ConfigMap) (key : ListKey) (s : Store) :
    Store :=
  match s.lookup key with
  | none => s
  | some o => finish hash key 5 s (start key configMaps o)

/-- The API server, and the lists that the controllers have in their queues. -/
structure Controllers where
  store : Store
  configMaps : String → List ConfigMap
  queue : Finset ListKey

inductive Controllers.Event where
  /-- A list is created, changed or deleted. -/
  | edit (key : ListKey) (new : Option StoredList)
  /-- A ConfigMap is created, changed or deleted. -/
  | configMap (ns name : String) (new : Option ConfigMap)
  /-- The controller takes a list from its queue. -/
  | reconcile (key : ListKey)

/-- An event, with what the watches put into the queues for it. -/
def Controllers.step (hash : Bytes → String) (c : Controllers) : Event → Controllers
  | .edit key new =>
    { c with
      store := match new with
        | some o => c.store.put key o
        | none => c.store.remove key
      queue := insert key c.queue }
  | .configMap ns name new =>
    { c with
      configMaps := Function.update c.configMaps ns
        ((new.map ({ · with name })).toList ++ (c.configMaps ns).filter (·.name ≠ name))
      -- `mapConfigMapToPhraseLists` and `mapConfigMapToIPLists`
      queue := c.queue ∪ ((c.store.objects.entries.filter fun e =>
        e.1.ns = ns ∧ usesConfigMap e.2.object.list name).map (·.1)).toFinset }
  | .reconcile key =>
    if key ∈ c.queue then
      let store := reconciled hash (c.configMaps key.ns) key c.store
      -- a write that changes the list is an event for the list
      let changed : Bool :=
        (store.lookup key).map (·.object) ≠ (c.store.lookup key).map (·.object)
      { c with store, queue := if changed then c.queue else c.queue.erase key }
    else c

/-- The state after the first `n` events. -/
def Controllers.after (hash : Bytes → String) (c : Controllers) (events : ℕ → Controllers.Event) :
    ℕ → Controllers
  | 0 => c
  | n + 1 => (c.after hash events n).step hash (events n)

/-! ## Waiting -/

/-- No other list of the namespace is Ready under this file name. -/
def Unowned (s : Store) (key : ListKey) (fileName : List Char) : Prop :=
  ∀ k o, k ≠ key → k.ns = key.ns → s.lookup k = some o → o.object.list.fileName = fileName →
    o.object.list.ready = false

/-- The list was refused for its file name, and nothing else is wrong with it. -/
structure Controllers.Blocked (c : Controllers) (key : ListKey) (o : Versioned StoredList)
    (body : Bytes) : Prop where
  stored : c.store.lookup key = some o
  notReady : o.object.list.ready = false
  reason : o.object.reason = "FileNameConflict"
  resolved : resolveBody { name := key.ns, configMaps := c.configMaps key.ns } o.object.list =
    .ok body
  fits : body.length ≤ maxPhraseFilesRawBytes

/-- A fair run from which the owners of the file name stay away, and in which nobody changes the
list or the ConfigMaps that make its body. -/
structure Controllers.Waits (hash : Bytes → String) (c : Controllers)
    (events : ℕ → Controllers.Event) (key : ListKey) (l : DataList) (body : Bytes) : Prop where
  fair : ∀ n, ∀ k ∈ (c.after hash events n).queue, ∃ m ≥ n, events m = .reconcile k
  unowned : ∀ n, Unowned (c.after hash events n).store key l.fileName
  unedited : ∀ n new, events n ≠ .edit key new
  resolved : ∀ n, resolveBody
    { name := key.ns, configMaps := (c.after hash events n).configMaps key.ns } l = .ok body

/-- Whatever the run, the list becomes Ready. -/
def Controllers.Recovers (hash : Bytes → String) (c : Controllers) (key : ListKey) (l : DataList)
    (body : Bytes) : Prop :=
  ∀ events, c.Waits hash events key l body →
    ∃ n o, (c.after hash events n).store.lookup key = some o ∧ o.object.list.ready = true

/-! ## What a reconcile does -/

section
variable {hash : Bytes → String} {s : Store} {key k : ListKey} {o : Versioned StoredList}
  {configMaps : List ConfigMap} {body : Bytes}

lemma replace_lookup_of_ne {s' : Store} {version : ℕ} {new : StoredList → StoredList}
    (h : s.replace k version new = some s') (hne : key ≠ k) : s'.lookup key = s.lookup key := by
  obtain ⟨stored, -, -, rfl⟩ := RevisionStore.replace_eq_some.mp h
  exact RevisionStore.lookup_put_of_ne _ _ hne

lemma advance_lookup_of_ne (flight : Flight) (hne : key ≠ k) :
    (advance hash s k flight).1.lookup key = s.lookup key := by
  cases flight with
  | listOwn o body =>
    simp only [advance]
    split <;> rfl
  | listOther o body =>
    simp only [advance]
    split <;> rfl
  | updateLabels o body =>
    simp only [advance]
    split
    · next h => exact replace_lookup_of_ne h hne
    · rfl
  | reGet body =>
    simp only [advance]
    split <;> rfl
  | writeStatus o =>
    simp only [advance]
    split
    · next h => exact replace_lookup_of_ne h hne
    · rfl

lemma finish_lookup_of_ne (n : ℕ) (flight : Flight) (hne : key ≠ k) :
    (finish hash k n s flight).lookup key = s.lookup key := by
  induction n generalizing s flight with
  | zero => rfl
  | succ n ih =>
    have hstep : (advance hash s k flight).1.lookup key = s.lookup key :=
      advance_lookup_of_ne flight hne
    rw [finish]
    split
    · next hadvance =>
      rw [hadvance] at hstep
      exact hstep
    · next hadvance =>
      rw [hadvance] at hstep
      rw [ih, hstep]

lemma reconciled_lookup_of_ne (hne : key ≠ k) :
    (reconciled hash configMaps k s).lookup key = s.lookup key := by
  rw [reconciled]
  split
  · rfl
  · exact finish_lookup_of_ne 5 _ hne

lemma reconciled_ready (hstored : s.lookup key = some o) (hready : o.object.list.ready = false)
    (hbody : resolveBody { name := key.ns, configMaps } o.object.list = .ok body)
    (hfits : body.length ≤ maxPhraseFilesRawBytes)
    (hunowned : Unowned s key o.object.list.fileName) :
    ∃ o', (reconciled hash configMaps key s).lookup key = some o' ∧
      o'.object.list.ready = true := by
  have howner : ∀ kind, owner s key kind o.object.list.fileName = none := by
    refine owner_eq_none fun k o' hk hns hname => ?_
    by_cases hkey : k = key
    · rw [hkey, hstored] at hk
      rw [← Option.some.inj hk, hready]
    · exact hunowned k o' hkey hns hk hname
  have hstart : start key configMaps o = .listOwn o body := by
    rw [start, hbody]
    exact if_neg (by omega)
  rw [reconciled, hstored]
  simp only [hstart, finish, advance, howner]
  cases hneed : (wantedLabels key.kind o.object.list).2 with
  | false =>
    simp [afterCheck, hneed, RevisionStore.replace, hstored, Versioned.map,
      StoredList.succeeded, StoredList.withStatus]
  | true =>
    simp [afterCheck, hneed, RevisionStore.replace, hstored, Versioned.map,
      StoredList.succeeded, StoredList.withStatus]

end

/-! ## Queued lists -/

namespace Controllers

variable {hash : Bytes → String} {c : Controllers} {key : ListKey} {o : Versioned StoredList}
  {body : Bytes}

lemma step_frame {event : Event} (hedit : ∀ new, event ≠ .edit key new)
    (hreconcile : event ≠ .reconcile key) :
    (c.step hash event).store.lookup key = c.store.lookup key ∧
      (key ∈ c.queue → key ∈ (c.step hash event).queue) := by
  cases event with
  | edit k new =>
    have hne : key ≠ k := fun h => hedit new (by rw [h])
    refine ⟨?_, Finset.mem_insert_of_mem⟩
    cases new with
    | none => exact RevisionStore.lookup_remove_of_ne _ hne
    | some o => exact RevisionStore.lookup_put_of_ne _ _ hne
  | configMap ns name new => exact ⟨rfl, Finset.mem_union_left _⟩
  | reconcile k =>
    have hne : key ≠ k := fun h => hreconcile (by rw [h])
    simp only [step]
    split
    · refine ⟨reconciled_lookup_of_ne hne, fun hqueued => ?_⟩
      show key ∈ ite _ _ _
      split
      · exact hqueued
      · exact Finset.mem_erase.mpr ⟨hne, hqueued⟩
    · exact ⟨rfl, id⟩

lemma recovers_of_queued (hblocked : c.Blocked key o body) (hqueued : key ∈ c.queue) :
    c.Recovers hash key o.object.list body := by
  intro events hwaits
  have hex : ∃ m, events m = .reconcile key := by
    obtain ⟨m, -, hm⟩ := hwaits.fair 0 key hqueued
    exact ⟨m, hm⟩
  classical
  -- up to the first reconcile of the list nothing happens to it
  have hbefore : ∀ n ≤ Nat.find hex, (c.after hash events n).store.lookup key = some o ∧
      key ∈ (c.after hash events n).queue := by
    intro n hn
    induction n with
    | zero => exact ⟨hblocked.stored, hqueued⟩
    | succ n ih =>
      obtain ⟨hstored, hmem⟩ := ih (by omega)
      rw [after]
      obtain ⟨hlookup, hqueue⟩ : (step hash (c.after hash events n) (events n)).store.lookup key =
          (c.after hash events n).store.lookup key ∧ _ :=
        step_frame (hwaits.unedited n) (Nat.find_min hex (by omega))
      exact ⟨hlookup.trans hstored, hqueue hmem⟩
  obtain ⟨hstored, hmem⟩ := hbefore _ le_rfl
  obtain ⟨o', ho', hready⟩ := reconciled_ready hstored hblocked.notReady (hwaits.resolved _)
    hblocked.fits (hwaits.unowned _)
  refine ⟨Nat.find hex + 1, o', ?_, hready⟩
  rw [after, Nat.find_spec hex, step, if_pos hmem]
  exact ho'

/-! ## Lists that are not queued -/

/-- What is left of `c` when the other lists are deleted one by one: the list itself is where it
was, and in no queue. -/
structure Starved (c : Controllers) (key : ListKey) (d : Controllers) : Prop where
  stored : d.store.lookup key = c.store.lookup key
  unqueued : key ∉ d.queue
  configMaps : d.configMaps = c.configMaps
  others : ∀ k, d.store.lookup k = none ∨ d.store.lookup k = c.store.lookup k

variable {d : Controllers} {k : ListKey}

lemma Starved.delete (h : Starved c key d) (hne : k ≠ key) :
    Starved c key (d.step hash (.edit k none)) where
  stored := (RevisionStore.lookup_remove_of_ne _ hne.symm).trans h.stored
  unqueued := by
    show key ∉ insert k d.queue
    rw [Finset.mem_insert, not_or]
    exact ⟨hne.symm, h.unqueued⟩
  configMaps := h.configMaps
  others k' := by
    by_cases hk : k' = k
    · left
      rw [hk]
      exact RevisionStore.lookup_remove_self _ _
    · rw [show (d.step hash (.edit k none)).store.lookup k' = d.store.lookup k' from
        RevisionStore.lookup_remove_of_ne _ hk]
      exact h.others k'

lemma Starved.reconcile (h : Starved c key d) (hgone : k = key ∨ d.store.lookup k = none) :
    Starved c key (d.step hash (.reconcile k)) := by
  rw [step]
  split
  · next hqueued =>
    rcases hgone with rfl | hnone
    · exact absurd hqueued h.unqueued
    · have hsame : reconciled hash (d.configMaps k.ns) k d.store = d.store := by
        rw [reconciled, hnone]
      simp only [hsame, ne_eq, not_true_eq_false, decide_false, Bool.false_eq_true, if_false]
      exact ⟨h.stored, fun hmem => h.unqueued (Finset.mem_of_mem_erase hmem), h.configMaps,
        h.others⟩
  · exact h

/-- Each list in turn is deleted and reconciled, but for `key`, which is left alone. -/
def starving (turn : ℕ → ListKey) (key : ListKey) (n : ℕ) : Event :=
  if n % 2 = 0 ∧ turn (n / 2) ≠ key then .edit (turn (n / 2)) none else .reconcile (turn (n / 2))

lemma starved_after (turn : ℕ → ListKey) (hqueued : key ∉ c.queue) (n : ℕ) :
    Starved c key (c.after hash (starving turn key) n) ∧
      (n % 2 = 1 → turn (n / 2) = key ∨
        (c.after hash (starving turn key) n).store.lookup (turn (n / 2)) = none) := by
  induction n with
  | zero => exact ⟨⟨rfl, hqueued, rfl, fun _ => .inr rfl⟩, by omega⟩
  | succ n ih =>
    obtain ⟨hstarved, hgone⟩ := ih
    rw [after, starving]
    by_cases hturn : n % 2 = 0 ∧ turn (n / 2) ≠ key
    · rw [if_pos hturn, show (n + 1) / 2 = n / 2 by omega]
      exact ⟨hstarved.delete hturn.2, fun _ => .inr (RevisionStore.lookup_remove_self _ _)⟩
    · rw [if_neg hturn]
      by_cases hodd : n % 2 = 1
      · exact ⟨hstarved.reconcile (hgone hodd), by omega⟩
      · have hkey : turn (n / 2) = key := by
          by_contra hne
          exact hturn ⟨by omega, hne⟩
        rw [show (n + 1) / 2 = n / 2 by omega]
        exact ⟨hstarved.reconcile (.inl hkey), fun _ => .inl hkey⟩

instance : Countable ListKey := by
  have htext : Function.Injective fun s : String => s.toList.map Char.toNat := fun s t h =>
    String.toList_inj.mp (List.map_injective_iff.mpr (fun _ _ => Char.toNat_inj.mp) h)
  have hkey : Function.Injective fun k : ListKey => ((k.ns.toList.map Char.toNat,
      k.name.toList.map Char.toNat), decide (k.kind = .phraseList)) := by
    intro k k' h
    simp only [Prod.mk.injEq] at h
    obtain ⟨⟨hns, hname⟩, hkind⟩ := h
    rw [ListKey.mk.injEq]
    refine ⟨htext hns, ?_, htext hname⟩
    revert hkind
    cases k.kind <;> cases k'.kind <;> decide
  exact hkey.countable

lemma exists_turns : ∃ turn : ℕ → ListKey, ∀ k n, ∃ m ≥ n, turn m = k := by
  have : Nonempty ListKey := ⟨⟨"", .phraseList, ""⟩⟩
  obtain ⟨f, hf⟩ := exists_surjective_nat ListKey
  refine ⟨fun n => f (Nat.unpair n).1, fun k n => ?_⟩
  obtain ⟨i, hi⟩ := hf k
  exact ⟨Nat.pair i n, Nat.right_le_pair i n, by simp [hi]⟩

lemma not_recovers_of_not_queued (hblocked : c.Blocked key o body)
    (hunowned : Unowned c.store key o.object.list.fileName) (hqueued : key ∉ c.queue) :
    ¬ c.Recovers hash key o.object.list body := by
  obtain ⟨turn, hturn⟩ := exists_turns
  have hstarved : ∀ n, Starved c key (c.after hash (starving turn key) n) := fun n =>
    (starved_after turn hqueued n).1
  have hwaits : c.Waits hash (starving turn key) key o.object.list body := by
    refine ⟨fun n k _ => ?_, fun n k o' hne hns ho' => ?_, fun n new => ?_, fun n => ?_⟩
    · obtain ⟨i, hi, hk⟩ := hturn k n
      refine ⟨2 * i + 1, by omega, ?_⟩
      rw [starving, if_neg (by omega), show (2 * i + 1) / 2 = i by omega, hk]
    · rcases (hstarved n).others k with hnone | hsame
      · rw [hnone] at ho'
        cases ho'
      · exact hunowned k o' hne hns (hsame.symm.trans ho')
    · rw [starving]
      split
      · next h => exact fun hedit => h.2 (Event.edit.inj hedit).1
      · exact fun hedit => by cases hedit
    · rw [(hstarved n).configMaps]
      exact hblocked.resolved
  intro hrecovers
  obtain ⟨n, o', ho', hready⟩ := hrecovers _ hwaits
  rw [(hstarved n).stored, hblocked.stored] at ho'
  rw [← Option.some.inj ho', hblocked.notReady] at hready
  cases hready

/-- A PhraseList takes a file name, an IPList is refused it, and the PhraseList is deleted. The
controllers have nothing more to do. -/
def freed : Controllers :=
  [.edit botPhrases (some (.created botPhrases
      { name := "bots", fileName := "bots.data".toList, ready := false, content := [98] })),
    .reconcile botPhrases, .reconcile botPhrases,
    .edit botAddresses (some (.created botAddresses
      { name := "bots", fileName := "bots.data".toList, ready := false, content := [49] })),
    .reconcile botAddresses, .reconcile botAddresses,
    .edit botPhrases none, .reconcile botPhrases].foldl
    (Controllers.step fun _ => "") ⟨.empty, fun _ => [], ∅⟩

lemma freed_blocked :
    ∃ o, freed.Blocked botAddresses o [49] ∧
      Unowned freed.store botAddresses o.object.list.fileName := by
  refine ⟨(freed.store.lookup botAddresses).get (by decide +kernel), ⟨?_, ?_, ?_, ?_, ?_⟩, ?_⟩
  · exact (Option.some_get _).symm
  · decide +kernel
  · decide +kernel
  · decide +kernel
  · decide
  · intro k o hne _ hk
    have hkeys : freed.store.objects.keys = [botAddresses] := by decide +kernel
    have hmem : k ∈ freed.store.objects.keys :=
      AList.lookup_isSome.mp (Option.isSome_iff_exists.mpr ⟨o, hk⟩)
    rw [hkeys, List.mem_singleton] at hmem
    exact absurd hmem hne

end Controllers

end KubeWaf.DataFiles.Ownership
