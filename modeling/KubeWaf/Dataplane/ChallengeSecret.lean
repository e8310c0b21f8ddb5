import KubeWaf.Dataplane.Slots
import KubeWaf.Lib.ObjectStore

/-!
# The secret of the challenge

`internal/dataplane/challenge/secret.go`: `ResolveChallengeHMAC` reads the key of the challenge
from the WAF, from a Secret the WAF refers to, or from a Secret that the operator manages. A leader
creates that Secret, fills it in or adopts it, and the other replicas only read it.

The calls are clients of the store of Secrets. However they interleave, they agree on one key, and
the stored key never changes again once it is usable (`challengeHMAC_agree`).

Names are the ASCII that the API server admits. A missing map of labels or data reads as an empty
one, and behaves as one.
-/

namespace KubeWaf.Dataplane

open Lib DataFiles

/-! ## Secrets -/

/-- What `adoptManagedSecretIfNeeded` reads of an owner reference. -/
structure OwnerReference where
  uid : String
  controller : Option Bool := none
  deriving DecidableEq

/-- `corev1.Secret`, with the labels, the owners and the data. -/
structure Secret where
  labels : GoMap String String := ∅
  ownerReferences : List OwnerReference := []
  data : GoMap String Bytes := ∅

structure ChallengeHMACResult where
  value : Bytes := []
  secretName : String := ""
  managed : Bool := false
  deriving DecidableEq

def challengeHMACKey : String := "hmac"

def challengeHMACBytes : ℕ := 32

def managedChallengeSecretSuffix : String := "-challenge-hmac"

def managedChallengeSecretName (wafName : String) : String :=
  let maxLen := 63
  if wafName.length + managedChallengeSecretSuffix.length ≤ maxLen then
    wafName ++ managedChallengeSecretSuffix
  else
    let keep := maxLen - managedChallengeSecretSuffix.length
    if keep < 1 then "challenge-hmac"
    else String.ofList (wafName.toList.take keep) ++ managedChallengeSecretSuffix

def setManagedSecretLabels (labels : GoMap String String) (wafName : String) :
    GoMap String String :=
  ((labels.insert "app.kubernetes.io/managed-by" "kubewaf").insert "kubewaf.io/waf" wafName).insert
    "kubewaf.io/component" "challenge-hmac"

/-- The labels are those that `setManagedSecretLabels` sets. -/
def hasManagedSecretLabels (labels : GoMap String String) (wafName : String) : Bool :=
  (labels.lookup "app.kubernetes.io/managed-by").getD "" = "kubewaf"
    && (labels.lookup "kubewaf.io/waf").getD "" = wafName
    && (labels.lookup "kubewaf.io/component").getD "" = "challenge-hmac"

/-- The key is there and long enough. -/
def usableKey (data : GoMap String Bytes) (key : String) : Option Bytes :=
  (data.lookup key).filter fun v => 32 ≤ v.length

def secretHMACValue (sec : Secret) : Option Bytes :=
  (usableKey sec.data challengeHMACKey).or (usableKey sec.data "secret")

/-! ## Resolving -/

/-- A call on the store of Secrets, which ends with a key or an error. -/
abbrev SecretClient := Client ObjectKey Secret (Except String ChallengeHMACResult)

section Resolve

-- the text of an error of the API server
variable (errorText : ApiError → String)
-- `controllerutil.SetControllerReference` on the owners, where there is a scheme
variable
  (setControllerReference : Option (List OwnerReference → Except String (List OwnerReference)))
-- the UID of the WAF
variable (uid : String) (waf : WAF)

/-- Namespace and name of the managed Secret. -/
def managedChallengeSecretKey (waf : WAF) : ObjectKey :=
  (waf.ns, managedChallengeSecretName waf.name)

/-- `%s/%s` of namespace and name. -/
def keyText (key : ObjectKey) : String := key.1 ++ "/" ++ key.2

/-- The result for a key of the managed Secret. -/
def managedResult (value : Bytes) : ChallengeHMACResult where
  value := value
  secretName := managedChallengeSecretName waf.name
  managed := true

/-- `SetControllerReference`, unless there is no scheme. -/
def withOwner (sec : Secret) : Except String Secret :=
  match setControllerReference with
  | none => .ok sec
  | some setOwner =>
    match setOwner sec.ownerReferences with
    | .error e => .error ("set owner on challenge secret: " ++ e)
    | .ok owners => .ok { sec with ownerReferences := owners }

def generateChallengeHMAC (next : Except String Bytes → SecretClient) : SecretClient :=
  .random challengeHMACBytes fun
    | .error e => next (.error ("generate challenge hmac: " ++ e))
    | .ok raw => next (.ok (Base64.encodeRawURL raw))

def readManagedChallengeSecret : SecretClient :=
  let nn := managedChallengeSecretKey waf
  .get nn fun
    | .error e => .done (.error ("managed challenge secret " ++ keyText nn ++ ": " ++ errorText e))
    | .ok existing =>
      match secretHMACValue existing.object with
      | some v => .done (.ok (managedResult waf v))
      | none =>
        .done (.error ("managed challenge secret " ++ keyText nn ++ " has no usable hmac key"))

/-- The WAF is the controller of the Secret. -/
def hasOwner (sec : Secret) : Bool :=
  sec.ownerReferences.any fun o => o.uid = uid && o.controller = some true

/-- The Secret with the labels it is to have. -/
def withManagedLabels (sec : Secret) : Secret :=
  if hasManagedSecretLabels sec.labels waf.name then sec
  else { sec with labels := setManagedSecretLabels sec.labels waf.name }

/-- What `adoptManagedSecretIfNeeded` makes of the Secret, and whether that is an update. -/
def adopted (sec : Secret) : Except String (Secret × Bool) :=
  if hasOwner uid sec ∨ setControllerReference = none then
    .ok (withManagedLabels waf sec, !hasManagedSecretLabels sec.labels waf.name)
  else (withOwner setControllerReference (withManagedLabels waf sec)).map fun sec => (sec, true)

def adoptManagedSecretIfNeeded (sec : Versioned Secret) (next : Option String → SecretClient) :
    SecretClient :=
  let nn := managedChallengeSecretKey waf
  match adopted setControllerReference uid waf sec.object with
  | .error e => next (some e)
  | .ok (_, false) => next none
  | .ok (adopted, true) => .update nn { sec with object := adopted } fun
    | some e => next (some ("adopt managed challenge secret " ++ keyText nn ++ ": " ++ errorText e))
    | none => next none

/-- The Secret exists but has no usable key: it is filled in. -/
def refillManagedChallengeSecret (existing : Versioned Secret) : SecretClient :=
  let nn := managedChallengeSecretKey waf
  generateChallengeHMAC fun
    | .error e => .done (.error e)
    | .ok val =>
      let sec : Secret :=
        { existing.object with
          data := existing.object.data.insert challengeHMACKey val
          labels := setManagedSecretLabels existing.object.labels waf.name }
      match withOwner setControllerReference sec with
      | .error e => .done (.error e)
      | .ok sec => .update nn { existing with object := sec } fun
        | some e => .done (.error
            ("update managed challenge secret " ++ keyText nn ++ ": " ++ errorText e))
        | none => .done (.ok (managedResult waf val))

/-- There is no Secret: it is created, or read where another call has created it first. -/
def createManagedChallengeSecret : SecretClient :=
  let nn := managedChallengeSecretKey waf
  generateChallengeHMAC fun
    | .error e => .done (.error e)
    | .ok val =>
      let sec : Secret :=
        { labels := setManagedSecretLabels ∅ waf.name
          data := AList.singleton challengeHMACKey val }
      match withOwner setControllerReference sec with
      | .error e => .done (.error e)
      | .ok sec => .create nn sec fun
        | some .alreadyExists => .get nn fun
          | .error e => .done (.error ("re-get challenge secret after race: " ++ errorText e))
          | .ok existing =>
            match secretHMACValue existing.object with
            | some v => .done (.ok (managedResult waf v))
            | none => .done (.error
                ("challenge secret " ++ keyText nn ++ " exists but has no usable hmac key"))
        | some e => .done (.error
            ("create managed challenge secret " ++ keyText nn ++ ": " ++ errorText e))
        | none => .done (.ok (managedResult waf val))

def ensureManagedChallengeSecret : SecretClient :=
  let nn := managedChallengeSecretKey waf
  .get nn fun
    | .ok existing =>
      match secretHMACValue existing.object with
      | some v => adoptManagedSecretIfNeeded errorText setControllerReference uid waf existing fun
        | some e => .done (.error e)
        | none => .done (.ok (managedResult waf v))
      | none => refillManagedChallengeSecret errorText setControllerReference waf existing
    | .error .notFound => createManagedChallengeSecret errorText setControllerReference waf
    | .error e => .done (.error
        ("get managed challenge secret " ++ keyText nn ++ ": " ++ errorText e))

/-- The key of the Secret that the WAF refers to. -/
def readSecretRef (ref : SecretKeyRef) : SecretClient :=
  let name := keyText (waf.ns, ref.name)
  if ref.name = "" ∨ ref.key = "" then
    .done (.error "challenge.secretRef requires name and key")
  else
    .get (waf.ns, ref.name) fun
      | .error e => .done (.error ("challenge secretRef " ++ name ++ ": " ++ errorText e))
      | .ok sec =>
        let raw := (sec.object.data.lookup ref.key).getD []
        if raw = [] then
          .done (.error ("challenge secretRef " ++ name ++ " missing key " ++ Go.quoted ref.key))
        else if raw.length < 32 then
          .done (.error ("challenge secretRef key " ++ Go.quoted ref.key
            ++ " must be at least 32 bytes (got " ++ toString raw.length ++ ")"))
        else .done (.ok { value := raw, secretName := ref.name })

def resolveChallengeHMAC (ensureManaged : Bool) : SecretClient :=
  match waf.challenge with
  | none => .done (.ok {})
  | some ch =>
    if challengeEnabled (some ch) = false then .done (.ok {})
    else if ch.secret ≠ "" then
      if ch.secret.utf8ByteSize < 32 then
        .done (.error ("challenge.spec.secret must be at least 32 bytes (got "
          ++ toString ch.secret.utf8ByteSize ++ ")"))
      else .done (.ok { value := ch.secret.toUTF8.toList })
    else
      match ch.secretRef with
      | some ref => readSecretRef errorText waf ref
      | none =>
        if ensureManaged then
          ensureManagedChallengeSecret errorText setControllerReference uid waf
        else readManagedChallengeSecret errorText waf

end Resolve

/-! ## The stored key -/

/-- The key that the store has under a name, where it is usable. -/
def storedHMAC (nn : ObjectKey) (s : ObjectStore ObjectKey Secret) : Option Bytes :=
  (s.lookup nn).bind fun o => secretHMACValue o.object

/-- A usable key stays. -/
def KeyStays (nn : ObjectKey) (s s' : ObjectStore ObjectKey Secret) : Prop :=
  ∀ v, storedHMAC nn s = some v → storedHMAC nn s' = some v

/-- The key of a result is the stored one. -/
def ResultStored (nn : ObjectKey) (s : ObjectStore ObjectKey Secret)
    (result : Except String ChallengeHMACResult) : Prop :=
  ∀ r, result = .ok r → storedHMAC nn s = some r.value

lemma usableKey_length {data : GoMap String Bytes} {key : String} {v : Bytes}
    (h : usableKey data key = some v) : 32 ≤ v.length := by
  rw [usableKey, Option.filter_eq_some_iff] at h
  exact of_decide_eq_true h.2

lemma secretHMACValue_length {sec : Secret} {v : Bytes} (h : secretHMACValue sec = some v) :
    32 ≤ v.length := by
  rcases Option.or_eq_some_iff.mp h with h | ⟨_, h⟩
  · exact usableKey_length h
  · exact usableKey_length h

lemma secretHMACValue_of_lookup {sec : Secret} {v : Bytes}
    (h : sec.data.lookup challengeHMACKey = some v) (hv : 32 ≤ v.length) :
    secretHMACValue sec = some v := by
  have hkey : usableKey sec.data challengeHMACKey = some v := by
    rw [usableKey, h, Option.filter_some, if_pos (decide_eq_true hv)]
  rw [secretHMACValue, hkey, Option.some_or]

lemma length_generated {raw : Bytes} (h : raw.length = challengeHMACBytes) :
    32 ≤ (Base64.encodeRawURL raw).length := by
  rw [Base64.length_encodeRawURL, h]
  decide

section Data

variable {setOwner : Option (List OwnerReference → Except String (List OwnerReference))}
  {uid : String} {waf : WAF} {sec sec' : Secret}

lemma withOwner_data (h : withOwner setOwner sec = .ok sec') : sec'.data = sec.data := by
  cases setOwner with
  | none => rw [← Except.ok.inj h]
  | some f =>
    rw [withOwner] at h
    split at h
    · cases h
    · rw [← Except.ok.inj h]

lemma adopted_data {updated : Bool} (h : adopted setOwner uid waf sec = .ok (sec', updated)) :
    sec'.data = sec.data := by
  have hlabels : (withManagedLabels waf sec).data = sec.data := by
    rw [withManagedLabels]
    split
    · rfl
    · rfl
  rw [adopted] at h
  split at h
  · rw [← (Prod.mk.inj (Except.ok.inj h)).1, hlabels]
  · obtain ⟨sec₁, hsec₁, heq⟩ := map_eq_ok.mp h
    rw [← (Prod.mk.inj heq).1, withOwner_data hsec₁, hlabels]

end Data

/-! ## What a call keeps to -/

section Keeps

variable {nn : ObjectKey} {s : ObjectStore ObjectKey Secret} {o : Versioned Secret}

lemma KeyStays.refl (s : ObjectStore ObjectKey Secret) : KeyStays nn s s := fun _ h => h

lemma KeyStays.trans (s₁ s₂ s₃ : ObjectStore ObjectKey Secret) (h : KeyStays nn s₁ s₂)
    (h' : KeyStays nn s₂ s₃) : KeyStays nn s₁ s₃ := fun v hv => h' v (h v hv)

lemma keeps_error (e : String) :
    (Client.done (.error e) : SecretClient).Keeps (KeyStays nn) (ResultStored nn) s := by
  intro s' _ r hr
  cases hr

lemma keeps_ok {r : ChallengeHMACResult} (h : storedHMAC nn s = some r.value) :
    (Client.done (.ok r) : SecretClient).Keeps (KeyStays nn) (ResultStored nn) s := by
  intro s' hs' r' hr'
  obtain rfl := Except.ok.inj hr'
  exact hs'.2 _ h

lemma storedHMAC_insert (o : Versioned Secret) :
    storedHMAC nn (s.insert nn o) = secretHMACValue o.object := by
  rw [storedHMAC, AList.lookup_insert]
  rfl

lemma storedHMAC_of_lookup (h : s.lookup nn = some o) :
    storedHMAC nn s = secretHMACValue o.object := by
  rw [storedHMAC, h]
  rfl

lemma get_eq_ok : s.get nn = .ok o ↔ s.lookup nn = some o := by
  rw [ObjectStore.get]
  cases s.lookup nn with
  | none => simp
  | some o' => simp

variable {errorText : ApiError → String}
  {setOwner : Option (List OwnerReference → Except String (List OwnerReference))}
  {uid : String} {waf : WAF} {existing : Versioned Secret}

lemma keeps_found (text : String) (hlookup : s.lookup nn = some existing) :
    (match secretHMACValue existing.object with
      | some v => .done (.ok (managedResult waf v))
      | none => .done (.error text) : SecretClient).Keeps (KeyStays nn) (ResultStored nn) s := by
  have hstored := storedHMAC_of_lookup hlookup
  split
  · rename_i v hv
    exact keeps_ok (hstored.trans hv)
  · exact keeps_error _

lemma keeps_read (s : ObjectStore ObjectKey Secret) :
    (readManagedChallengeSecret errorText waf).Keeps (KeyStays (managedChallengeSecretKey waf))
      (ResultStored (managedChallengeSecretKey waf)) s := by
  intro s' _
  refine ⟨?_, fun e => keeps_error _⟩
  cases hget : s'.get (managedChallengeSecretKey waf) with
  | error e => exact keeps_error _
  | ok existing => exact keeps_found _ (get_eq_ok.mp hget)

lemma keeps_adopt {v : Bytes} (hlookup : s.lookup (managedChallengeSecretKey waf) = some existing)
    (hv : secretHMACValue existing.object = some v) :
    (adoptManagedSecretIfNeeded errorText setOwner uid waf existing fun
      | some e => .done (.error e)
      | none => .done (.ok (managedResult waf v))).Keeps
        (KeyStays (managedChallengeSecretKey waf))
        (ResultStored (managedChallengeSecretKey waf)) s := by
  have hstored : storedHMAC (managedChallengeSecretKey waf) s = some v :=
    (storedHMAC_of_lookup hlookup).trans hv
  rw [adoptManagedSecretIfNeeded]
  split
  · exact keeps_error _
  · exact keeps_ok hstored
  · rename_i sec hadopted
    intro s' hs'
    refine ⟨?_, fun e _ => keeps_error _⟩
    intro s'' hupdate
    -- the key that is written back is the stored one, whatever else was updated meanwhile
    have hafter : storedHMAC (managedChallengeSecretKey waf) s'' = some v := by
      obtain ⟨_, _, _, rfl⟩ := update_eq_ok.mp hupdate
      rw [storedHMAC_insert, ← hv, secretHMACValue, secretHMACValue, adopted_data hadopted]
    refine ⟨fun w hw => ?_, keeps_ok hafter⟩
    rw [hafter, ← hs'.2 v hstored, hw]

lemma keeps_refill (hlookup : s.lookup (managedChallengeSecretKey waf) = some existing)
    (hv : secretHMACValue existing.object = none) :
    (refillManagedChallengeSecret errorText setOwner waf existing).Keeps
      (KeyStays (managedChallengeSecretKey waf))
      (ResultStored (managedChallengeSecretKey waf)) s := by
  intro s₁ hs₁
  refine ⟨fun raw hraw => ?_, fun e => keeps_error _⟩
  dsimp only
  split
  · exact keeps_error _
  · rename_i sec howner
    intro s₂ hs₂
    refine ⟨?_, fun e _ => keeps_error _⟩
    intro s₃ hupdate
    obtain ⟨stored, hstored, hversion, rfl⟩ := update_eq_ok.mp hupdate
    -- the version is the one that was read, so the Secret still has no usable key
    have hunusable : storedHMAC (managedChallengeSecretKey waf) s₂ = none := by
      obtain ⟨o, ho, _, hsame⟩ := hs₁.1.trans hs₂.1 _ _ hlookup
      obtain rfl : stored = o := Option.some.inj (hstored.symm.trans ho)
      rw [storedHMAC_of_lookup ho, hsame hversion, hv]
    have hkey : sec.data.lookup challengeHMACKey = some (Base64.encodeRawURL raw) := by
      rw [withOwner_data howner, AList.lookup_insert]
    refine ⟨fun w hw => ?_, keeps_ok ?_⟩
    · rw [hunusable] at hw
      cases hw
    · rw [storedHMAC_insert]
      exact secretHMACValue_of_lookup hkey (length_generated hraw)

lemma keeps_create (s : ObjectStore ObjectKey Secret) :
    (createManagedChallengeSecret errorText setOwner waf).Keeps
      (KeyStays (managedChallengeSecretKey waf))
      (ResultStored (managedChallengeSecretKey waf)) s := by
  intro s₁ _
  refine ⟨fun raw hraw => ?_, fun e => keeps_error _⟩
  dsimp only
  split
  · exact keeps_error _
  · rename_i sec howner
    intro s₂ _
    refine ⟨?_, ?_⟩
    · intro s₃ hcreate
      obtain ⟨hnone, rfl⟩ := create_eq_ok.mp hcreate
      have hkey : sec.data.lookup challengeHMACKey = some (Base64.encodeRawURL raw) := by
        rw [withOwner_data howner]
        rfl
      refine ⟨fun w hw => ?_, keeps_ok ?_⟩
      · rw [storedHMAC, hnone] at hw
        cases hw
      · rw [storedHMAC_insert]
        exact secretHMACValue_of_lookup hkey (length_generated hraw)
    · intro e _
      cases e with
      | alreadyExists =>
        intro s₃ _
        refine ⟨?_, fun e => keeps_error _⟩
        cases hget : s₃.get (managedChallengeSecretKey waf) with
        | error e => exact keeps_error _
        | ok existing => exact keeps_found _ (get_eq_ok.mp hget)
      | notFound => exact keeps_error _
      | conflict => exact keeps_error _
      | other text => exact keeps_error _

lemma keeps_ensure (s : ObjectStore ObjectKey Secret) :
    (ensureManagedChallengeSecret errorText setOwner uid waf).Keeps
      (KeyStays (managedChallengeSecretKey waf))
      (ResultStored (managedChallengeSecretKey waf)) s := by
  intro s' _
  refine ⟨?_, fun e => keeps_error _⟩
  cases hget : s'.get (managedChallengeSecretKey waf) with
  | ok existing =>
    have hlookup := get_eq_ok.mp hget
    cases hv : secretHMACValue existing.object with
    | none =>
      simp only [hv]
      exact keeps_refill hlookup hv
    | some v =>
      simp only [hv]
      exact keeps_adopt hlookup hv
  | error e =>
    cases e with
    | notFound => exact keeps_create s'
    | alreadyExists => exact keeps_error _
    | conflict => exact keeps_error _
    | other text => exact keeps_error _

/-- The key of the WAF is the managed one. -/
structure ManagedMode (waf : WAF) : Prop where
  enabled : challengeEnabled waf.challenge = true
  noSecret : ∀ ch, waf.challenge = some ch → ch.secret = "" ∧ ch.secretRef = none

lemma resolveChallengeHMAC_managed (h : ManagedMode waf) (ensureManaged : Bool) :
    resolveChallengeHMAC errorText setOwner uid waf ensureManaged =
      if ensureManaged then ensureManagedChallengeSecret errorText setOwner uid waf
      else readManagedChallengeSecret errorText waf := by
  obtain ⟨henabled, hnoSecret⟩ := h
  rw [resolveChallengeHMAC]
  cases hch : waf.challenge with
  | none =>
    rw [hch] at henabled
    cases henabled
  | some ch =>
    obtain ⟨hsecret, href⟩ := hnoSecret ch hch
    rw [hch] at henabled
    simp [henabled, hsecret, href]

lemma keeps_resolve (h : ManagedMode waf) (ensureManaged : Bool)
    (s : ObjectStore ObjectKey Secret) :
    (resolveChallengeHMAC errorText setOwner uid waf ensureManaged).Keeps
      (KeyStays (managedChallengeSecretKey waf))
      (ResultStored (managedChallengeSecretKey waf)) s := by
  rw [resolveChallengeHMAC_managed h]
  split
  · exact keeps_ensure s
  · exact keeps_read s

end Keeps

/-! ## Calls that interleave -/

/-- Calls for one WAF, of leaders and of replicas that only read, over a store of Secrets. -/
def secretCalls {ι : Type} (errorText : ApiError → String)
    (setOwner : ι → Option (List OwnerReference → Except String (List OwnerReference)))
    (uid : String) (waf : WAF) (ensureManaged : ι → Bool) (store : ObjectStore ObjectKey Secret) :
    Pool ι ObjectKey Secret (Except String ChallengeHMACResult) where
  store := store
  clients i := resolveChallengeHMAC errorText (setOwner i) uid waf (ensureManaged i)

/-- In every interleaving a call that succeeds returns the key that is stored then and from then
on, of 32 bytes at least, and so does every other call that succeeds. -/
theorem challengeHMAC_agree {ι : Type} [DecidableEq ι] {errorText : ApiError → String}
    {setOwner : ι → Option (List OwnerReference → Except String (List OwnerReference))}
    {uid : String} {waf : WAF} {ensureManaged : ι → Bool}
    {store : ObjectStore ObjectKey Secret} (hmanaged : ManagedMode waf)
    {events events' : List (ι × Reply)}
    {p p' : Pool ι ObjectKey Secret (Except String ChallengeHMACResult)}
    (hrun : runEvents Pool.step events
      (secretCalls errorText setOwner uid waf ensureManaged store) = some p)
    (hrun' : runEvents Pool.step events' p = some p') {i : ι} {r : ChallengeHMACResult}
    (hr : (p.clients i).result? = some (.ok r)) :
    32 ≤ r.value.length ∧
    storedHMAC (managedChallengeSecretKey waf) p.store = some r.value ∧
    storedHMAC (managedChallengeSecretKey waf) p'.store = some r.value ∧
    ∀ j r', (p'.clients j).result? = some (.ok r') → r'.value = r.value := by
  obtain ⟨_, hkeeps⟩ := Pool.keeps_of_run KeyStays.refl KeyStays.trans
    (fun i => keeps_resolve hmanaged (ensureManaged i) store) hrun
  obtain ⟨hreach, hkeeps'⟩ := Pool.keeps_of_run KeyStays.refl KeyStays.trans hkeeps hrun'
  have hstored := (hkeeps i).result KeyStays.refl hr r rfl
  have hstored' := hreach.2 _ hstored
  refine ⟨?_, hstored, hstored', ?_⟩
  · obtain ⟨o, _, hv⟩ := Option.bind_eq_some_iff.mp hstored
    exact secretHMACValue_length hv
  · intro j r' hr'
    have hj := (hkeeps' j).result KeyStays.refl hr' r' rfl
    exact Option.some.inj (hj.symm.trans hstored')

/-- A WAF with a managed challenge. -/
def challengedWAF : WAF where
  ns := "shop"
  name := "waf"
  challenge := some {}

/-- Two leaders and a replica that only reads, without a Secret. -/
def racingCalls : Pool (Fin 3) ObjectKey Secret (Except String ChallengeHMACResult) :=
  secretCalls (fun _ => "") (fun _ => none) "" challengedWAF (fun i => i ≠ 2) ∅

/-- Both leaders find no Secret and draw a key, and the first one creates it. -/
def firstCreates : List (Fin 3 × Reply) :=
  [(0, .answered), (1, .answered), (0, .drawn (.replicate 32 0)), (1, .drawn (.replicate 32 1)),
    (0, .answered)]

/-- The second one finds the Secret there and reads it, and so does the replica. -/
def othersRead : List (Fin 3 × Reply) := [(1, .answered), (1, .answered), (2, .answered)]

/-- The key of the first leader. -/
def firstKey : ChallengeHMACResult :=
  managedResult challengedWAF (Base64.encodeRawURL (.replicate 32 0))

/-- All three calls of that race return the key of the first leader. -/
theorem challengeHMAC_agree_race :
    ManagedMode challengedWAF ∧
    ∃ p p' r, runEvents Pool.step firstCreates racingCalls = some p ∧
      runEvents Pool.step othersRead p = some p' ∧ (p.clients 0).result? = some (.ok r) ∧
      (32 ≤ r.value.length ∧
      storedHMAC (managedChallengeSecretKey challengedWAF) p.store = some r.value ∧
      storedHMAC (managedChallengeSecretKey challengedWAF) p'.store = some r.value ∧
      ∀ j r', (p'.clients j).result? = some (.ok r') → r'.value = r.value) ∧
      ∀ j, (p'.clients j).result? = some (.ok r) := by
  have hmanaged : ManagedMode challengedWAF :=
    ⟨rfl, fun ch hch => by rw [← Option.some.inj hch]; exact ⟨rfl, rfl⟩⟩
  have hrace : ((runEvents Pool.step firstCreates racingCalls).bind fun p =>
      (runEvents Pool.step othersRead p).map fun p' =>
        ((p.clients 0).result?, (p'.clients 0).result?, (p'.clients 1).result?,
          (p'.clients 2).result?))
      = some (some (.ok firstKey), some (.ok firstKey), some (.ok firstKey),
          some (.ok firstKey)) := by
    rfl
  obtain ⟨p, hp, hrest⟩ := Option.bind_eq_some_iff.mp hrace
  obtain ⟨p', hp', hresults⟩ := Option.map_eq_some_iff.mp hrest
  simp only [Prod.mk.injEq] at hresults
  obtain ⟨hr, h₀, h₁, h₂⟩ := hresults
  refine ⟨hmanaged, p, p', firstKey, hp, hp', hr, challengeHMAC_agree hmanaged hp hp' hr, ?_⟩
  intro j
  match j with
  | 0 => exact h₀
  | 1 => exact h₁
  | 2 => exact h₂

end KubeWaf.Dataplane
