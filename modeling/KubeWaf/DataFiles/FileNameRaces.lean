import KubeWaf.DataFiles.Ownership

/-!
# Races for a file name

Two lists check for conflicts before either of them is Ready, and then both become Ready: each
reconcile writes to its own object only, so no write is refused. So the conflict check excludes
nothing, and file names have one owner whatever the schedule only where the users never give one
name to two lists at a time.
-/

namespace KubeWaf.DataFiles.Ownership

open Lib List

/-! ## Reconciles keep the file names -/

/-- The same file name, in the same generation. -/
def SameSpec (a b : StoredList) : Prop :=
  a.list.fileName = b.list.fileName ∧ a.generation = b.generation

/-- The object that a reconcile has in memory. -/
def Flight.copy? : Flight → Option (Versioned StoredList)
  | .listOwn o _ | .listOther o _ | .updateLabels o _ | .writeStatus o => some o
  | .reGet _ => none

/-- The spec in memory is the one that was read under that version. -/
def Faithful (s : Store) (key : ListKey) (o : Versioned StoredList) : Prop :=
  ∃ c, s.Seen key c ∧ c.version = o.version ∧ SameSpec c.object o.object

def Flight.Faithful (s : Store) (key : ListKey) (flight : Flight) : Prop :=
  ∀ o ∈ flight.copy?, Ownership.Faithful s key o

section
variable {s : Store} {key : ListKey} {o : Versioned StoredList}

lemma faithful_of_lookup (h : s.lookup key = some o) : Faithful s key o :=
  ⟨o, s.seen_of_lookup h, rfl, rfl, rfl⟩

lemma Faithful.map (h : Faithful s key o) {f : StoredList → StoredList}
    (hf : SameSpec o.object (f o.object)) : Faithful s key (o.map f) := by
  obtain ⟨c, hseen, hversion, hspec⟩ := h
  exact ⟨c, hseen, hversion, hspec.1.trans hf.1, hspec.2.trans hf.2⟩

lemma Faithful.put (h : Faithful s key o) (k : ListKey) (new : StoredList) :
    Faithful (s.put k new) key o := by
  obtain ⟨c, hseen, hsame⟩ := h
  exact ⟨c, hseen.put k new, hsame⟩

lemma Faithful.remove (h : Faithful s key o) (k : ListKey) : Faithful (s.remove k) key o := by
  obtain ⟨c, hseen, hsame⟩ := h
  exact ⟨c, hseen.remove k, hsame⟩

lemma Faithful.sameSpec (h : Faithful s key o) {stored : Versioned StoredList}
    (hlookup : s.lookup key = some stored) (hversion : stored.version = o.version) :
    SameSpec stored.object o.object := by
  obtain ⟨c, hseen, hc, hspec⟩ := h
  rw [hseen.2 stored hlookup (hversion.trans hc.symm)]
  exact hspec

lemma start_faithful (configMaps : List ConfigMap) (h : s.lookup key = some o) :
    (start key configMaps o).Faithful s key := by
  have ho : Faithful s key o := faithful_of_lookup h
  unfold start
  split
  · rintro _ ⟨⟩
    exact ho.map ⟨rfl, rfl⟩
  · split
    · rintro _ ⟨⟩
      exact ho.map ⟨rfl, rfl⟩
    · rintro _ ⟨⟩
      exact ho

lemma afterCheck_faithful (hash : Bytes → String) (body : Bytes) (h : Faithful s key o) :
    (afterCheck hash key o body).Faithful s key := by
  unfold afterCheck
  simp only
  split
  · rintro _ ⟨⟩
    exact h.map ⟨rfl, rfl⟩
  · rintro _ ⟨⟩
    exact h.map ⟨rfl, rfl⟩

end

/-- A store after a request of a reconcile: the spec of its object is what it was. -/
def Touched (key : ListKey) (s s' : Store) : Prop :=
  s' = s ∨ ∃ o new, s.lookup key = some o ∧ SameSpec o.object new ∧ s' = s.put key new

lemma advance_spec (hash : Bytes → String) {s : Store} {key : ListKey} {flight : Flight}
    (h : flight.Faithful s key) :
    Touched key s (advance hash s key flight).1 ∧
      ∀ next ∈ (advance hash s key flight).2, next.Faithful (advance hash s key flight).1 key := by
  cases flight with
  | listOwn o body =>
    have ho := h o rfl
    simp only [advance]
    split
    · refine ⟨.inl rfl, ?_⟩
      rintro _ ⟨⟩ _ ⟨⟩
      exact ho.map ⟨rfl, rfl⟩
    · refine ⟨.inl rfl, ?_⟩
      rintro _ ⟨⟩ _ ⟨⟩
      exact ho
  | listOther o body =>
    have ho := h o rfl
    simp only [advance]
    split
    · refine ⟨.inl rfl, ?_⟩
      rintro _ ⟨⟩ _ ⟨⟩
      exact ho.map ⟨rfl, rfl⟩
    · refine ⟨.inl rfl, ?_⟩
      rintro _ ⟨⟩
      exact afterCheck_faithful hash body ho
  | updateLabels o body =>
    have ho := h o rfl
    simp only [advance]
    split
    case h_1 s' hreplace =>
      obtain ⟨stored, hlookup, hversion, rfl⟩ := RevisionStore.replace_eq_some.mp hreplace
      have hspec := ho.sameSpec hlookup hversion
      refine ⟨.inr ⟨stored, o.object.withStatus stored.object, hlookup, hspec, rfl⟩, ?_⟩
      rintro _ ⟨⟩ _ ⟨⟩
    · exact ⟨.inl rfl, by rintro _ ⟨⟩⟩
  | reGet body =>
    simp only [advance]
    split
    case h_1 o hlookup =>
      refine ⟨.inl rfl, ?_⟩
      rintro _ ⟨⟩ _ ⟨⟩
      exact (faithful_of_lookup hlookup).map ⟨rfl, rfl⟩
    · exact ⟨.inl rfl, by rintro _ ⟨⟩⟩
  | writeStatus o =>
    simp only [advance]
    split
    case h_1 s' hreplace =>
      obtain ⟨stored, hlookup, -, rfl⟩ := RevisionStore.replace_eq_some.mp hreplace
      refine ⟨.inr ⟨stored, stored.object.withStatus o.object, hlookup, ⟨rfl, rfl⟩, rfl⟩, ?_⟩
      rintro _ ⟨⟩
    · exact ⟨.inl rfl, by rintro _ ⟨⟩⟩

/-! ## What the users do to the file names -/

/-- What a user does, as far as file names go. -/
inductive NameOp where
  | create (key : ListKey) (fileName : List Char)
  | rename (key : ListKey) (fileName : List Char)
  | delete (key : ListKey)
  deriving DecidableEq

abbrev Names := ListKey → Option (List Char)

def NameOp.apply (names : Names) : NameOp → Names
  | .create key fileName =>
    if (names key).isSome then names else Function.update names key (some fileName)
  | .rename key fileName =>
    if (names key).isSome then Function.update names key (some fileName) else names
  | .delete key => Function.update names key none

/-- The file names after what the users did, in a cluster without lists before. -/
def namesAfter (ops : List NameOp) : Names := ops.foldl NameOp.apply fun _ => none

/-- At no time do two lists of a namespace have the same file name. -/
def NeverShared (ops : List NameOp) : Prop :=
  ∀ past, past <+: ops → ∀ k k' fileName, k ≠ k' → k.ns = k'.ns →
    namesAfter past k = some fileName → namesAfter past k' ≠ some fileName

def Event.nameOp? : Event → Option NameOp
  | .create key l => some (.create key l.fileName)
  | .rename key fileName => some (.rename key fileName)
  | .delete key => some (.delete key)
  | _ => none

def World.names (w : World) : Names := fun key =>
  (w.store.lookup key).map fun o => o.object.list.fileName

/-- Every reconcile under way has in memory what it has read. -/
def World.Faithful (w : World) : Prop :=
  ∀ key, ∀ flight ∈ w.flights key, flight.Faithful w.store key

section
variable {w : World} (h : w.Faithful)
include h

lemma faithful_put (k : ListKey) (new : StoredList) :
    ({ w with store := w.store.put k new } : World).Faithful :=
  fun key flight hflight o ho => (h key flight hflight o ho).put k new

lemma faithful_update {s : Store} {key : ListKey} {next : Option Flight}
    (hs : Touched key w.store s) (hnext : ∀ f ∈ next, f.Faithful s key) :
    (⟨s, Function.update w.flights key next⟩ : World).Faithful := by
  intro k flight hflight
  have hflight : flight ∈ Function.update w.flights key next k := hflight
  by_cases hk : k = key
  · rw [hk, Function.update_self] at hflight
    rw [hk]
    exact hnext flight hflight
  · rw [Function.update_of_ne hk] at hflight
    intro o ho
    have hold := h k flight hflight o ho
    obtain rfl | ⟨_, new, _, _, rfl⟩ := hs
    · exact hold
    · exact hold.put key new

lemma step_faithful (hash : Bytes → String) (e : Event) : (w.step hash e).Faithful := by
  cases e with
  | create key l =>
    simp only [World.step]
    split
    · exact faithful_put h _ _
    · exact h
  | rename key fileName =>
    simp only [World.step]
    split
    · exact h
    · split
      · exact h
      · exact faithful_put h _ _
  | delete key => exact fun k flight hflight o ho => (h k flight hflight o ho).remove key
  | reconcile key configMaps =>
    simp only [World.step]
    split
    case h_1 o _ hlookup =>
      refine faithful_update h (.inl rfl) ?_
      rintro _ ⟨⟩
      exact start_faithful configMaps hlookup
    · exact h
  | request key =>
    simp only [World.step]
    split
    · exact h
    case h_2 flight hflight =>
      obtain ⟨hs, hnext⟩ := advance_spec hash (h key flight hflight)
      exact faithful_update h hs hnext
  | refused key => exact faithful_update h (.inl rfl) (by rintro _ ⟨⟩)

end

section
variable {w : World}

lemma names_put (key : ListKey) (new : StoredList) (flights : ListKey → Option Flight) :
    (⟨w.store.put key new, flights⟩ : World).names =
      Function.update w.names key (some new.list.fileName) := by
  funext k
  unfold World.names
  by_cases hk : k = key
  · rw [hk, Function.update_self, RevisionStore.lookup_put_self]
    rfl
  · rw [Function.update_of_ne hk, RevisionStore.lookup_put_of_ne _ _ hk]

lemma names_of_touched {key : ListKey} {s : Store} (hs : Touched key w.store s)
    (flights : ListKey → Option Flight) : (⟨s, flights⟩ : World).names = w.names := by
  obtain rfl | ⟨o, new, hlookup, hspec, rfl⟩ := hs
  · rfl
  · rw [names_put, ← hspec.1]
    apply Function.update_eq_self_iff.mpr
    rw [World.names, hlookup]
    rfl

lemma step_names (h : w.Faithful) (hash : Bytes → String) (e : Event) :
    (w.step hash e).names = (e.nameOp?.elim w.names (NameOp.apply w.names)) := by
  have hsome : ∀ key, (w.names key).isSome = (w.store.lookup key).isSome :=
    fun key => Option.isSome_map
  cases e with
  | create key l =>
    simp only [World.step, Event.nameOp?, Option.elim, NameOp.apply, hsome]
    cases hlookup : w.store.lookup key with
    | none => exact names_put key _ _
    | some o => rfl
  | rename key fileName =>
    simp only [World.step, Event.nameOp?, Option.elim, NameOp.apply, hsome]
    cases hlookup : w.store.lookup key with
    | none => rfl
    | some o =>
      simp only [Option.isSome_some, if_true]
      split
      case isTrue hsame =>
        refine (Function.update_eq_self_iff.mpr ?_).symm
        rw [World.names, hlookup, ← hsame]
        rfl
      · exact names_put key _ _
  | delete key =>
    funext k
    by_cases hk : k = key
    · simp [World.step, World.names, Event.nameOp?, NameOp.apply, hk]
    · simp [World.step, World.names, Event.nameOp?, NameOp.apply, hk,
        RevisionStore.lookup_remove_of_ne]
  | reconcile key configMaps =>
    simp only [World.step]
    split
    · rfl
    · rfl
  | request key =>
    simp only [World.step]
    split
    · rfl
    case h_2 flight hflight =>
      exact names_of_touched (advance_spec hash (h key flight hflight)).1 _
  | refused key => rfl

lemma run_names (h : w.Faithful) (hash : Bytes → String) (events : List Event) :
    (w.run hash events).names = (events.filterMap Event.nameOp?).foldl NameOp.apply w.names := by
  induction events generalizing w with
  | nil => rfl
  | cons e events ih =>
    rw [World.run, foldl_cons, ← World.run, ih (step_faithful h hash e), step_names h,
      filterMap_cons]
    cases e.nameOp? with
    | none => rfl
    | some op => rfl

end

lemma init_faithful : World.init.Faithful := by
  rintro key _ ⟨⟩

/-! ## The race -/

section Race

/-- A list that takes its body from a ConfigMap. -/
def plainList (name : String) (fileName : List Char) : DataList where
  name := name
  fileName := fileName
  ready := false
  configMapRef := some ⟨"phrases", "list"⟩

def plainConfigMaps : List ConfigMap := [{ name := "phrases", data := [("list", [10])] }]

/-- The users, with lists of this kind. -/
def NameOp.event : NameOp → Event
  | .create key fileName => .create key (plainList key.name fileName)
  | .rename key fileName => .rename key fileName
  | .delete key => .delete key

lemma nameOp?_event (op : NameOp) : op.event.nameOp? = some op := by
  cases op <;> rfl

/-- No reconcile has run yet. -/
structure World.Untouched (w : World) : Prop where
  flights : ∀ key, w.flights key = none
  lists : ∀ key o, w.store.lookup key = some o →
    o.object.list = plainList key.name o.object.list.fileName

variable {hash : Bytes → String} {w : World} {fileName : List Char}

lemma untouched_put {key : ListKey} {new : StoredList} (h : w.Untouched)
    (hnew : new.list = plainList key.name new.list.fileName) :
    ({ w with store := w.store.put key new } : World).Untouched := by
  refine ⟨h.flights, fun k o ho => ?_⟩
  by_cases hk : k = key
  · rw [hk, RevisionStore.lookup_put_self] at ho
    rw [← Option.some.inj ho, hk]
    exact hnew
  · rw [RevisionStore.lookup_put_of_ne _ _ hk] at ho
    exact h.lists k o ho

lemma step_event_untouched (h : w.Untouched) (op : NameOp) :
    (w.step hash op.event).Untouched := by
  cases op with
  | create key fileName =>
    simp only [NameOp.event, World.step]
    split
    · exact untouched_put h rfl
    · exact h
  | rename key fileName =>
    simp only [NameOp.event, World.step]
    split
    · exact h
    case h_2 o hlookup =>
      split
      · exact h
      · refine untouched_put h ?_
        rw [StoredList.renamed, h.lists key o hlookup]
        rfl
  | delete key =>
    refine ⟨h.flights, fun k o ho => ?_⟩
    by_cases hk : k = key
    · simp [NameOp.event, World.step, hk] at ho
    · refine h.lists k o ?_
      rw [← ho]
      exact (RevisionStore.lookup_remove_of_ne _ hk).symm

lemma run_event_untouched (h : w.Untouched) (ops : List NameOp) :
    (w.run hash (ops.map NameOp.event)).Untouched := by
  induction ops generalizing w with
  | nil => exact h
  | cons op ops ih => exact ih (step_event_untouched h op)

lemma owner_eq_none {s : Store} {key : ListKey}
    (h : ∀ k o, s.lookup k = some o → k.ns = key.ns → o.object.list.fileName = fileName →
      o.object.list.ready = false)
    (kind : ListKind) : owner s key kind fileName = none := by
  rw [owner, find?_eq_none]
  intro l hl
  obtain ⟨⟨k, o⟩, he, rfl⟩ := mem_map.mp hl
  obtain ⟨hmem, hns⟩ := mem_filter.mp he
  have hready := h k o (GoMap.mem_entries_iff.mp hmem) (of_decide_eq_true hns).1
  by_cases hname : o.object.list.fileName = fileName
  · simp [hready hname]
  · simp [hname]

/-- The reconcile of a list that nobody has reconciled yet, up to the write of its status. -/
def upToStatus (key : ListKey) : List Event :=
  [.reconcile key plainConfigMaps, .request key, .request key, .request key, .request key]

lemma start_plain {key : ListKey} {o : Versioned StoredList}
    (h : o.object.list = plainList key.name o.object.list.fileName) :
    start key plainConfigMaps o = .listOwn o [10] := by
  have hbody : resolveBody { name := key.ns, configMaps := plainConfigMaps } o.object.list =
      .ok [10] := by
    rw [h]
    rfl
  rw [start, hbody]
  rfl

lemma wantedLabels_of_unmarked {kind : ListKind} {l : DataList}
    (h : (l.labels.lookup kind.label).getD "" ≠ "true") : (wantedLabels kind l).2 = true := by
  unfold wantedLabels
  simp only [if_pos h]
  split_ifs
  · rfl
  · rfl

lemma afterCheck_plain {key : ListKey} {o : Versioned StoredList} (body : Bytes)
    (h : o.object.list = plainList key.name o.object.list.fileName) :
    ∃ labels, afterCheck hash key o body =
      .updateLabels (o.map (·.labelled labels)) body := by
  have hneed : (wantedLabels key.kind o.object.list).2 = true := by
    apply wantedLabels_of_unmarked
    rw [h]
    show "" ≠ "true"
    decide
  unfold afterCheck
  simp only [hneed, if_true]
  exact ⟨_, rfl⟩

lemma step_request (s : Store) (flights : ListKey → Option Flight) (key : ListKey)
    (flight : Flight) :
    (⟨s, Function.update flights key (some flight)⟩ : World).step hash (.request key) =
      ⟨(advance hash s key flight).1,
        Function.update flights key (advance hash s key flight).2⟩ := by
  simp [World.step]

lemma run_upToStatus (hash : Bytes → String) {key : ListKey} {o : Versioned StoredList}
    (hflight : w.flights key = none) (hlookup : w.store.lookup key = some o)
    (hplain : o.object.list = plainList key.name o.object.list.fileName)
    (hready : ∀ k o, w.store.lookup k = some o → o.object.list.ready = false) :
    ∃ new, new.list.fileName = o.object.list.fileName ∧ new.list.ready = false ∧
      w.run hash (upToStatus key) = ⟨w.store.put key new, Function.update w.flights key
        (some (.writeStatus ⟨new.succeeded hash [10], w.store.revision + 1⟩))⟩ := by
  obtain ⟨labels, hafter⟩ : ∃ labels, afterCheck hash key o [10] = _ := afterCheck_plain [10] hplain
  have hstart : w.step hash (.reconcile key plainConfigMaps) =
      ⟨w.store, Function.update w.flights key (some (.listOwn o [10]))⟩ := by
    simp [World.step, hflight, hlookup, start_plain hplain]
  have howner : ∀ kind, owner w.store key kind o.object.list.fileName = none :=
    owner_eq_none fun k o hk _ _ => hready k o hk
  have hown : advance hash w.store key (.listOwn o [10]) = (w.store, some (.listOther o [10])) := by
    simp [advance, howner]
  have hother : advance hash w.store key (.listOther o [10]) =
      (w.store, some (.updateLabels (o.map (·.labelled labels)) [10])) := by
    simp [advance, howner, hafter]
  have hupdate : advance hash w.store key
      (.updateLabels (o.map (·.labelled labels)) [10]) =
      (w.store.put key
        ((o.object.labelled labels).withStatus o.object),
        some (.reGet [10])) := by
    simp [advance, RevisionStore.replace, hlookup, Versioned.map]
  have hget : ∀ new, advance hash (w.store.put key new) key (.reGet [10]) = (w.store.put key new,
      some (.writeStatus ⟨new.succeeded hash [10], w.store.revision + 1⟩)) := by
    intro new
    simp [advance, Versioned.map]
  refine ⟨(o.object.labelled labels).withStatus o.object, rfl, hready key o hlookup, ?_⟩
  simp [World.run, upToStatus, hstart, step_request, hown, hother, hupdate, hget]

/-- A reconcile that has only to write that its list is Ready. -/
def Prepared (hash : Bytes → String) (w : World) (key : ListKey) (fileName : List Char) : Prop :=
  ∃ o, w.store.lookup key = some o ∧ o.object.list.fileName = fileName ∧
    w.flights key = some (.writeStatus (o.map (·.succeeded hash [10])))

/-- Between two worlds, nothing has happened to a list or to its reconcile. -/
def Idle (key : ListKey) (w w' : World) : Prop :=
  w'.store.lookup key = w.store.lookup key ∧ w'.flights key = w.flights key

lemma Prepared.idle {key : ListKey} {w' : World} (h : Prepared hash w key fileName)
    (hidle : Idle key w w') : Prepared hash w' key fileName := by
  rw [Prepared, hidle.1, hidle.2]
  exact h

lemma idle_put {key k : ListKey} (new : StoredList) (next : Option Flight) (hk : k ≠ key) :
    Idle k w ⟨w.store.put key new, Function.update w.flights key next⟩ :=
  ⟨RevisionStore.lookup_put_of_ne _ _ hk, Function.update_of_ne hk _ _⟩

lemma prepared_upToStatus (hash : Bytes → String) {key : ListKey} {o : Versioned StoredList}
    (hflight : w.flights key = none) (hlookup : w.store.lookup key = some o)
    (hplain : o.object.list = plainList key.name o.object.list.fileName)
    (hready : ∀ k o, w.store.lookup k = some o → o.object.list.ready = false) :
    Prepared hash (w.run hash (upToStatus key)) key o.object.list.fileName ∧
      (∀ k ≠ key, Idle k w (w.run hash (upToStatus key))) ∧
      ∀ k o, (w.run hash (upToStatus key)).store.lookup k = some o →
        o.object.list.ready = false := by
  obtain ⟨new, hname, hnew, hrun⟩ := run_upToStatus hash hflight hlookup hplain hready
  rw [hrun]
  refine ⟨⟨_, RevisionStore.lookup_put_self _ _ _, hname, Function.update_self _ _ _⟩,
    fun k hk => idle_put new _ hk, fun k o ho => ?_⟩
  by_cases hk : k = key
  · rw [hk, RevisionStore.lookup_put_self] at ho
    cases ho
    exact hnew
  · rw [RevisionStore.lookup_put_of_ne _ _ hk] at ho
    exact hready k o ho

lemma Prepared.request {key : ListKey} (h : Prepared hash w key fileName) :
    (∃ o, (w.step hash (.request key)).store.lookup key = some o ∧
      o.object.list.fileName = fileName ∧ o.object.ReadyNow) ∧
      ∀ k ≠ key, Idle k w (w.step hash (.request key)) := by
  obtain ⟨o, hlookup, hname, hflight⟩ := h
  have hstep : w.step hash (.request key) =
      ⟨w.store.put key (o.object.withStatus (o.object.succeeded hash [10])),
        Function.update w.flights key none⟩ := by
    simp [World.step, hflight, advance, RevisionStore.replace, hlookup, Versioned.map]
  rw [hstep]
  exact ⟨⟨_, RevisionStore.lookup_put_self _ _ _, hname, rfl, rfl⟩, fun k hk => idle_put _ _ hk⟩

/-- Two reconciles that both check before either of them writes. -/
def race (k k' : ListKey) : List Event :=
  upToStatus k ++ upToStatus k' ++ [.request k, .request k']

lemma not_exclusive_race (hash : Bytes → String) (h : w.Untouched) {k k' : ListKey}
    {o o' : Versioned StoredList} (hne : k ≠ k') (hns : k.ns = k'.ns)
    (ho : w.store.lookup k = some o) (ho' : w.store.lookup k' = some o')
    (hsame : o.object.list.fileName = o'.object.list.fileName) :
    ¬(w.run hash (race k k')).Exclusive := by
  have hready : ∀ key o, w.store.lookup key = some o → o.object.list.ready = false := by
    intro key o ho
    rw [h.lists key o ho]
    rfl
  obtain ⟨hprep, hidle, hready₁⟩ := prepared_upToStatus hash (h.flights k) ho (h.lists k o ho) hready
  -- the second reconcile finds its own object as it was, and nothing Ready
  obtain ⟨hlookup', hflight'⟩ := hidle k' hne.symm
  obtain ⟨hprep', hidle', -⟩ := prepared_upToStatus hash (hflight'.trans (h.flights k'))
    (hlookup'.trans ho') (h.lists k' o' ho') hready₁
  obtain ⟨⟨p, hp, hpname, hpready⟩, hidle₃⟩ := (hprep.idle (hidle' k hne)).request
  obtain ⟨⟨p', hp', hpname', hpready'⟩, hidle₄⟩ := (hprep'.idle (hidle₃ k' hne.symm)).request
  intro hexclusive
  refine hexclusive k k' p p' hne hns ?_ ?_ ?_ ⟨hpready, hpready'⟩
  · rw [race, World.run, foldl_append, foldl_append]
    exact (hidle₄ k hne).1.trans hp
  · rw [race, World.run, foldl_append, foldl_append]
    exact hp'
  · rw [hpname, hpname', hsame]

lemma filterMap_nameOp?_race (k k' : ListKey) : (race k k').filterMap Event.nameOp? = [] := rfl

/-- Whatever the schedule, a file name has one owner at every time exactly when the users never
give one name to two lists of a namespace at a time. -/
theorem exclusive_iff_neverShared (hash : Bytes → String) (ops : List NameOp) :
    (∀ events, events.filterMap Event.nameOp? <+: ops →
      (World.init.run hash events).Exclusive) ↔ NeverShared ops := by
  constructor
  · intro hexclusive past hpast k k' fileName hne hns hk hk'
    have huntouched : World.init.Untouched := ⟨fun _ => rfl, fun key o ho => by cases ho⟩
    have hops : (past.map NameOp.event).filterMap Event.nameOp? = past := by
      have hcomp : Event.nameOp? ∘ NameOp.event = some := funext nameOp?_event
      rw [filterMap_map, hcomp, filterMap_some]
    have hnames := run_names init_faithful hash (past.map NameOp.event)
    rw [hops] at hnames
    have hlookup : ∀ key, namesAfter past key = some fileName →
        ∃ o, (World.init.run hash (past.map NameOp.event)).store.lookup key = some o ∧
          o.object.list.fileName = fileName := by
      intro key hkey
      exact Option.map_eq_some_iff.mp ((congrFun hnames key).trans hkey)
    obtain ⟨o, ho, hname⟩ := hlookup k hk
    obtain ⟨o', ho', hname'⟩ := hlookup k' hk'
    refine not_exclusive_race hash (run_event_untouched huntouched past) hne hns ho ho'
      (hname.trans hname'.symm) ?_
    rw [World.run, World.run, ← foldl_append]
    apply hexclusive
    rw [filterMap_append, hops, filterMap_nameOp?_race, append_nil]
    exact hpast
  · intro hshared events hevents k k' o o' hne hns ho ho' hsame _
    have hnames := run_names init_faithful hash events
    have hlookup : ∀ key p, (World.init.run hash events).store.lookup key = some p →
        namesAfter (events.filterMap Event.nameOp?) key = some p.object.list.fileName := by
      intro key p hp
      refine (congrFun hnames key).symm.trans ?_
      rw [World.names, hp]
      rfl
    exact hshared _ hevents k k' _ hne hns (hlookup k o ho) (hsame ▸ hlookup k' o' ho')

end Race

def botPhrases : ListKey := ⟨"shop", .phraseList, "bots"⟩

def botAddresses : ListKey := ⟨"shop", .ipList, "bots"⟩

/-- A PhraseList and an IPList of one file name, whose reconciles take turns. -/
def botRace : List Event :=
  [.create botPhrases
      { name := "bots", fileName := "bots.data".toList, ready := false, content := [98] },
    .create botAddresses
      { name := "bots", fileName := "bots.data".toList, ready := false, content := [49] },
    .reconcile botPhrases [], .reconcile botAddresses [],
    -- both list both kinds
    .request botPhrases, .request botPhrases, .request botAddresses, .request botAddresses,
    -- both set their labels and read their object again
    .request botPhrases, .request botPhrases, .request botAddresses, .request botAddresses,
    -- both write their status
    .request botPhrases, .request botAddresses]

theorem botRace_two_owners : ¬(World.init.run (fun _ => "") botRace).Exclusive := by
  have hready : ∀ key ∈ [botPhrases, botAddresses],
      ((World.init.run (fun _ => "") botRace).store.lookup key).any (fun o =>
        o.object.list.fileName = "bots.data".toList ∧ o.object.ReadyNow) = true := by
    decide +kernel
  obtain ⟨o, ho, howner⟩ := (Option.any_eq_true _ _).mp (hready botPhrases (by decide))
  obtain ⟨o', ho', howner'⟩ := (Option.any_eq_true _ _).mp (hready botAddresses (by decide))
  rw [decide_eq_true_eq] at howner howner'
  intro hexclusive
  exact hexclusive botPhrases botAddresses o o' (by decide) rfl ho ho'
    (howner.1.trans howner'.1.symm) ⟨howner.2, howner'.2⟩

end KubeWaf.DataFiles.Ownership
