import BTHomeWritable.Receiver.Absorbing
import BTHomeWritable.Receiver.CacheLayout
import BTHomeWritable.Receiver.Grammar

/-!
# One packet, heard more than once

Several proxies deliver one advertisement several times.  The coordinator that
opens and parses it and the cache that keeps and reads are two views of one
object, and `_authentication_failed` counts on top of both.  What the views hold
in common they hold alike.

Handling a packet again does nothing to the first view, and to the second at most
what a request for a read does.  The count is another matter: it counts
deliveries.

* `plaintext_again`: whatever the check and the key make of a payload, they make of
  it once more, since what they read has moved only where it makes no difference
  (`SameCheck`).
* `handleAdvertisement_handleAdvertisement`: the first view after two deliveries is
  that after one.  With `opens` and `hears` the lemmas speak of what was made of it.
* `Heard` is the state of a listener that has had the packet, and `Heard.hearAll`
  any number of further deliveries.

`heard_again_iff` is the result: all is as it was but for a packet that is
`Unopened`.
-/

namespace BTHomeWritable.Receiver

def AUTHENTICATION_FAILURES_BEFORE_REAUTH : ℕ := 2

structure Failures where
  authenticationFailures : ℕ
  /-- There is an `_on_authentication_failure`. -/
  asksForKey : Bool
  /-- How often it has been called. -/
  reauthentications : ℕ
  deriving DecidableEq

structure Listener where
  coordinator : Coordinator
  cache : Cache
  failures : Failures
  declaration_eq : cache.declaration = coordinator.declaration
  revision_eq : cache.revisionAdvertised = coordinator.revisionAdvertised

/-- A packet as one proxy delivers it: so long after the one before, and what a read that it asks
for would meet. -/
structure Delivery where
  seconds : ℕ
  reachable : Bool
  readable : ℕ → Bool

/-- `_authentication_failed`, as far as it counts. -/
def Failures.authenticationFailed (f : Failures) : Failures :=
  let f : Failures := { f with authenticationFailures := f.authenticationFailures + 1 }
  if f.authenticationFailures ≥ AUTHENTICATION_FAILURES_BEFORE_REAUTH && f.asksForKey then
    { f with reauthentications := f.reauthentications + 1 }
  else f

/-- What `_plaintext` makes of the count: a packet opens, or it does not, or this is not asked. -/
def Failures.after (f : Failures) : Option Bool → Failures
  | none => f
  | some true => { f with authenticationFailures := 0 }
  | some false => f.authenticationFailed

namespace Coordinator

variable (aead : Aead) (table : ObjectTable) (address : List Char)

/-- Whether `_plaintext` opens the payload, if it gets as far as to ask. -/
def opens (s : Coordinator) (payload : Bytes) : Option Bool :=
  if !isEncrypted payload then none
  else
    match s.bindkey with
    | none => some false
    | some bindkey =>
        if !s.counterIncreased payload then none
        else
          match decryptAdvertising aead payload bindkey address with
          | .error _ => none
          | .ok none => some false
          | .ok (some _) => some true

/-- The declaration that `async_handle_advertisement` goes on with. -/
def hears (s : Coordinator) (payload : Bytes) : Option Declaration :=
  if payload.isEmpty then none
  else
    match (s.plaintext aead address payload).2 with
    | .ok (some objects) =>
        match parseDeclaration table objects with
        | .ok declaration => declaration
        | .error _ => none
    | _ => none

/-- The payload is sealed, and there is no key, or there is one and the payload passes the replay
check and does not authenticate under it. -/
def Unopened (s : Coordinator) (payload : Bytes) : Prop :=
  isEncrypted payload = true ∧ ∀ bindkey ∈ s.bindkey,
    s.counterIncreased payload = true ∧
      decryptAdvertising aead payload bindkey address = .ok none

variable {aead table address} {s s' : Coordinator} {bindkey payload : Bytes}

/-! ## What the coordinator makes of a packet it has just handled -/

theorem opens_eq_false_iff :
    s.opens aead address payload = some false ↔ Unopened aead address s payload := by
  unfold opens Unopened
  cases isEncrypted payload with
  | false => simp
  | true =>
      cases s.bindkey with
      | none => simp
      | some bindkey =>
          cases s.counterIncreased payload with
          | false => simp
          | true =>
              cases hopen : decryptAdvertising aead payload bindkey address with
              | error e => simp [hopen]
              | ok opened => cases opened <;> simp [hopen]

theorem plaintext_clear (hclear : isEncrypted payload = false) :
    s.plaintext aead address payload =
      ({ s with advertisesEncrypted := some false },
        .ok (some (payload.drop (objectsAt payload)))) := by
  simp [plaintext, hclear]

theorem plaintext_keyless (hsealed : isEncrypted payload = true) (hkey : s.bindkey = none) :
    s.plaintext aead address payload =
      ({ s with advertisesEncrypted := some true, bindkeyVerified := some false }, .ok none) := by
  unfold plaintext
  simp only [hsealed, Bool.not_true, Bool.false_eq_true, if_false]
  split
  · rfl
  · rename_i bindkey hsome
    exact absurd (hsome.symm.trans hkey) (by simp)

/-- The flag says what the count is told. -/
theorem bindkeyVerified_plaintext :
    (s.plaintext aead address payload).1.bindkeyVerified =
      (s.opens aead address payload).or s.bindkeyVerified := by
  cases hsealed : isEncrypted payload with
  | false => simp [plaintext_clear hsealed, opens, hsealed]
  | true =>
      cases hkey : s.bindkey with
      | none => simp [plaintext_keyless hsealed hkey, opens, hsealed, hkey]
      | some bindkey =>
          rw [plaintext_sealed hkey hsealed]
          cases hincreased : s.counterIncreased payload with
          | false => simp [opens, hsealed, hkey, hincreased]
          | true =>
              cases hopen : decryptAdvertising aead payload bindkey address with
              | error e => simp [opens, hsealed, hkey, hincreased, hopen]
              | ok opened => cases opened <;> simp [opens, hsealed, hkey, hincreased, hopen]

/-- What `_plaintext` leaves alone. -/
theorem plaintext_frame :
    (s.plaintext aead address payload).1.bindkey = s.bindkey ∧
      (s.plaintext aead address payload).1.declaration = s.declaration ∧
      (s.plaintext aead address payload).1.revisionAdvertised = s.revisionAdvertised := by
  cases hsealed : isEncrypted payload with
  | false =>
      rw [plaintext_clear hsealed]
      exact ⟨rfl, rfl, rfl⟩
  | true =>
      cases hkey : s.bindkey with
      | none =>
          rw [plaintext_keyless hsealed hkey]
          exact ⟨hkey, rfl, rfl⟩
      | some bindkey =>
          rw [plaintext_sealed hkey hsealed]
          split
          · exact ⟨hkey, rfl, rfl⟩
          · split <;> exact ⟨hkey, rfl, rfl⟩

/-- What `_plaintext` reads and writes. -/
structure SameCheck (s s' : Coordinator) : Prop where
  bindkey : s'.bindkey = s.bindkey
  advertisesEncrypted : s'.advertisesEncrypted = s.advertisesEncrypted
  bindkeyVerified : s'.bindkeyVerified = s.bindkeyVerified
  encryptionCounter : s'.encryptionCounter = s.encryptionCounter

theorem counterIncreased_unverified (h : s.bindkeyVerified ≠ some true) :
    s.counterIncreased payload = true := by
  cases hcounter : advertisingCounter payload <;> simp [counterIncreased, hcounter, h]

theorem SameCheck.counterIncreased (h : SameCheck s s') :
    s'.counterIncreased payload = s.counterIncreased payload := by
  simp only [Coordinator.counterIncreased, h.bindkeyVerified, h.encryptionCounter]

/-- A counter passes against itself. -/
theorem counterIncreased_again {before : ℕ}
    (h : s.encryptionCounter = (advertisingCounter payload).getD before) :
    s.counterIncreased payload = true := by
  cases hcounter : advertisingCounter payload with
  | none => simp [counterIncreased, hcounter]
  | some counter =>
      have hequal : s.encryptionCounter = counter := by simpa [hcounter] using h
      simp [counterIncreased, hcounter, hequal]

/-- A payload that has been through the replay check fares the same in it again. -/
theorem counterIncreased_plaintext (hkey : s.bindkey = some bindkey)
    (hsealed : isEncrypted payload = true) :
    (s.plaintext aead address payload).1.counterIncreased payload = s.counterIncreased payload := by
  rw [plaintext_sealed hkey hsealed]
  cases hincreased : s.counterIncreased payload with
  | false => exact hincreased
  | true =>
      simp only [Bool.not_true, Bool.false_eq_true, if_false]
      cases decryptAdvertising aead payload bindkey address with
      | error e => exact hincreased
      | ok opened =>
          cases opened with
          | none => exact counterIncreased_unverified (by simp)
          | some objects => exact counterIncreased_again rfl

theorem checked_eq_self {advertises verified : Option Bool} {counter : ℕ}
    (hadvertises : s.advertisesEncrypted = advertises) (hverified : s.bindkeyVerified = verified)
    (hcounter : s.encryptionCounter = counter) :
    { s with
      advertisesEncrypted := advertises
      bindkeyVerified := verified
      encryptionCounter := counter } = s := by
  subst hadvertises hverified hcounter
  rfl

/-- `_plaintext` settles: from where it left the check it says the same and moves nothing. -/
theorem plaintext_again (h : SameCheck (s.plaintext aead address payload).1 s') :
    s'.plaintext aead address payload = (s', (s.plaintext aead address payload).2) := by
  cases hsealed : isEncrypted payload with
  | false =>
      have hclear : s.plaintext aead address payload = _ := plaintext_clear hsealed
      rw [hclear] at h ⊢
      rw [plaintext_clear hsealed]
      exact Prod.ext (checked_eq_self h.advertisesEncrypted rfl rfl) rfl
  | true =>
      cases hkey : s.bindkey with
      | none =>
          have hkeyless : s.plaintext aead address payload = _ := plaintext_keyless hsealed hkey
          rw [hkeyless] at h ⊢
          rw [plaintext_keyless hsealed (h.bindkey.trans hkey)]
          exact Prod.ext (checked_eq_self h.advertisesEncrypted h.bindkeyVerified rfl) rfl
      | some bindkey =>
          have hkey' : s'.bindkey = some bindkey := h.bindkey.trans (plaintext_frame.1.trans hkey)
          have hincreased : s'.counterIncreased payload = s.counterIncreased payload :=
            h.counterIncreased.trans (counterIncreased_plaintext hkey hsealed)
          have hkeyed : s.plaintext aead address payload = _ := plaintext_sealed hkey hsealed
          rw [hkeyed] at h ⊢
          rw [plaintext_sealed hkey' hsealed, hincreased]
          -- what the check dropped it drops again; what opened has become the counter to
          -- beat, and is no smaller than itself
          cases hpass : s.counterIncreased payload with
          | false =>
              simp only [hpass, Bool.not_false, if_true] at h
              exact Prod.ext (checked_eq_self h.advertisesEncrypted rfl rfl) rfl
          | true =>
              simp only [hpass, Bool.not_true, Bool.false_eq_true, if_false] at h ⊢
              cases hopen : decryptAdvertising aead payload bindkey address with
              | error e =>
                  simp only [hopen] at h
                  exact Prod.ext (checked_eq_self h.advertisesEncrypted rfl rfl) rfl
              | ok opened =>
                  cases opened with
                  | none =>
                      simp only [hopen] at h
                      exact Prod.ext
                        (checked_eq_self h.advertisesEncrypted h.bindkeyVerified rfl) rfl
                  | some objects =>
                      simp only [hopen] at h
                      have hcounter : s'.encryptionCounter =
                          (advertisingCounter payload).getD s'.encryptionCounter := by
                        have hleft := h.encryptionCounter
                        cases hcounter : advertisingCounter payload with
                        | none => rfl
                        | some counter => simpa [hcounter] using hleft
                      exact Prod.ext
                        (checked_eq_self h.advertisesEncrypted h.bindkeyVerified hcounter) rfl

/-! ## Handling a packet again -/

theorem handleAdvertisement_of_hears_none (hne : payload.isEmpty = false)
    (h : s.hears aead table address payload = none) :
    s.handleAdvertisement aead table address payload = (s.plaintext aead address payload).1 := by
  unfold hears at h
  unfold handleAdvertisement
  simp only [hne, Bool.false_eq_true, if_false] at h ⊢
  rcases hplain : s.plaintext aead address payload with ⟨left, result⟩
  rw [hplain] at h
  match result with
  | .error _ | .ok none => rfl
  | .ok (some objects) =>
      simp only at h ⊢
      cases hparse : parseDeclaration table objects with
      | error e => rfl
      | ok declaration =>
          simp only [hparse] at h
          rw [h]

theorem handleAdvertisement_of_hears_some {declaration : Declaration}
    (h : s.hears aead table address payload = some declaration) :
    s.handleAdvertisement aead table address payload =
      noticeRevision
        { (s.plaintext aead address payload).1 with declaration := some declaration }
        declaration.settingsRevision := by
  unfold hears at h
  unfold handleAdvertisement
  split at h
  · exact absurd h (by simp)
  · rename_i hne
    rw [if_neg hne]
    rcases hplain : s.plaintext aead address payload with ⟨left, result⟩
    rw [hplain] at h
    match result with
    | .error _ | .ok none => exact absurd h (by simp)
    | .ok (some objects) =>
        simp only at h ⊢
        cases hparse : parseDeclaration table objects with
        | error e => simp [hparse] at h
        | ok declaration =>
            simp only [hparse] at h
            rw [h]

/-- The entries of a declaration that is read are numbered from 1. -/
theorem numbered_of_parse {objects : Bytes} {declaration : Declaration}
    (h : parseDeclaration table objects = .ok (some declaration)) :
    declaration.entries = entriesFrom 1 declaration.layout := by
  cases hsplit : splitObjects table objects with
  | error e => simp [parseDeclaration_of_error hsplit] at h
  | ok result =>
      obtain ⟨found, _ | offset⟩ := result
      · simp [parseDeclaration_of_undeclared hsplit] at h
      · rw [parseDeclaration_of_declaration hsplit] at h
        split at h
        · exact absurd h (by simp)
        split at h
        · exact absurd h (by simp)
        · cases hrevision : revisionOf found with
          | error e => simp [hrevision, Except.map] at h
          | ok revision =>
              rw [hrevision] at h
              obtain rfl := Option.some.inj (Except.ok.inj h)
              exact congrArg (entriesFrom 1) (Cache.layout_entriesFrom 1 _).symm

theorem numbered_of_hears {declaration : Declaration}
    (h : s.hears aead table address payload = some declaration) :
    declaration.entries = entriesFrom 1 declaration.layout := by
  unfold hears at h
  split at h
  · exact absurd h (by simp)
  split at h
  · rename_i objects _
    split at h
    · rename_i hparse
      exact numbered_of_parse (h ▸ hparse)
    · exact absurd h (by simp)
  · exact absurd h (by simp)

/-- What `_notice_revision` leaves alone. -/
theorem sameCheck_noticeRevision (revision : Option ℕ) :
    SameCheck s (s.noticeRevision revision) := by
  cases revision <;> exact ⟨rfl, rfl, rfl, rfl⟩

theorem sameCheck_handleAdvertisement (hne : payload.isEmpty = false) :
    SameCheck (s.plaintext aead address payload).1
      (s.handleAdvertisement aead table address payload) := by
  cases h : s.hears aead table address payload with
  | none =>
      rw [handleAdvertisement_of_hears_none hne h]
      exact ⟨rfl, rfl, rfl, rfl⟩
  | some declaration =>
      rw [handleAdvertisement_of_hears_some h]
      obtain ⟨hkey, hadvertises, hverified, hcounter⟩ := sameCheck_noticeRevision (s :=
        { (s.plaintext aead address payload).1 with declaration := some declaration })
        declaration.settingsRevision
      exact ⟨hkey, hadvertises, hverified, hcounter⟩

theorem noticeRevision_again (s : Coordinator) (declaration : Declaration) :
    let noticed := noticeRevision { s with declaration := some declaration }
      declaration.settingsRevision
    noticeRevision { noticed with declaration := some declaration } declaration.settingsRevision =
      noticed := by
  cases hrevision : declaration.settingsRevision with
  | none => rfl
  | some revision => simp [noticeRevision]

/-- The same is heard again. -/
theorem hears_handleAdvertisement :
    (s.handleAdvertisement aead table address payload).hears aead table address payload =
      s.hears aead table address payload := by
  cases hne : payload.isEmpty with
  | true => simp [hears, hne]
  | false =>
      have hplain : (s.handleAdvertisement aead table address payload).plaintext aead address
          payload = _ := plaintext_again (sameCheck_handleAdvertisement hne)
      unfold hears
      rw [hplain]

/-- Handling a packet settles. -/
theorem handleAdvertisement_handleAdvertisement :
    (s.handleAdvertisement aead table address payload).handleAdvertisement aead table address
        payload = s.handleAdvertisement aead table address payload := by
  cases hne : payload.isEmpty with
  | true => simp [handleAdvertisement, hne]
  | false =>
      have hplain : (s.handleAdvertisement aead table address payload).plaintext aead address
          payload = _ := plaintext_again (sameCheck_handleAdvertisement hne)
      have hsame : (s.handleAdvertisement aead table address payload).hears aead table address
          payload = s.hears aead table address payload := hears_handleAdvertisement
      cases h : s.hears aead table address payload with
      | none =>
          rw [handleAdvertisement_of_hears_none hne (hsame.trans h), hplain]
      | some declaration =>
          rw [handleAdvertisement_of_hears_some (hsame.trans h), hplain,
            handleAdvertisement_of_hears_some h]
          exact noticeRevision_again _ _

theorem opens_handleAdvertisement :
    (s.handleAdvertisement aead table address payload).opens aead address payload =
      s.opens aead address payload := by
  cases hsealed : isEncrypted payload with
  | false => simp [opens, hsealed]
  | true =>
      have hne : payload.isEmpty = false := by
        cases payload with
        | nil => simp [isEncrypted] at hsealed
        | cons _ _ => rfl
      have hcheck : SameCheck (s.plaintext aead address payload).1
          (s.handleAdvertisement aead table address payload) := sameCheck_handleAdvertisement hne
      have hbindkey := hcheck.bindkey.trans plaintext_frame.1
      unfold opens
      simp only [hsealed, Bool.not_true, Bool.false_eq_true, if_false, hbindkey]
      cases hkey : s.bindkey with
      | none => rfl
      | some bindkey =>
          simp only [hcheck.counterIncreased, counterIncreased_plaintext hkey hsealed]

theorem declaration_handleAdvertisement :
    (s.handleAdvertisement aead table address payload).declaration =
      (s.hears aead table address payload).or s.declaration := by
  cases h : s.hears aead table address payload with
  | none =>
      cases hne : payload.isEmpty with
      | true => simp [handleAdvertisement, hne]
      | false =>
          rw [handleAdvertisement_of_hears_none hne h]
          exact plaintext_frame.2.1
  | some declaration =>
      rw [handleAdvertisement_of_hears_some h]
      cases hrevision : declaration.settingsRevision <;> rfl

theorem revisionAdvertised_handleAdvertisement :
    (s.handleAdvertisement aead table address payload).revisionAdvertised =
      ((s.hears aead table address payload).bind Declaration.settingsRevision).or
        s.revisionAdvertised := by
  cases h : s.hears aead table address payload with
  | none =>
      cases hne : payload.isEmpty with
      | true => simp [handleAdvertisement, hne]
      | false =>
          rw [handleAdvertisement_of_hears_none hne h]
          exact plaintext_frame.2.2
  | some declaration =>
      rw [handleAdvertisement_of_hears_some h, Option.bind_some]
      cases hrevision : declaration.settingsRevision with
      | none => exact plaintext_frame.2.2
      | some revision => rfl

end Coordinator

/-! ## The cache -/

namespace Cache

variable {s : Cache} {layout : Bytes} {revision : Option ℕ} {readable : ℕ → Bool} {reachable : Bool}

/-- What a delivery is to the cache. -/
def hear (s : Cache) (d : Delivery) (heard : Option Declaration) : Cache :=
  let s : Cache := { s with now := s.now + d.seconds }
  match heard with
  | none => s
  | some declaration =>
      s.advertise declaration.layout declaration.settingsRevision d.readable d.reachable

theorem revisionRead_loopHead (i : ℕ) : (s.loopHead i reachable).revisionRead = s.revisionRead := by
  unfold loopHead
  split
  · rfl
  · simp only
    split
    · rfl
    · split <;> rfl

theorem revisionRead_noticeRevision :
    (s.noticeRevision revision reachable).revisionRead = s.revisionRead := by
  cases revision with
  | none => rfl
  | some r =>
      simp only [noticeRevision]
      split
      · rfl
      split
      · rfl
      · unfold requestRead
        split
        · rfl
        · exact revisionRead_loopHead _

theorem revisionRead_advertise :
    (s.advertise layout revision readable reachable).revisionRead = s.revisionRead := by
  unfold advertise
  rw [revisionRead_noticeRevision]
  simp only [record]
  split <;> split <;> rfl

theorem declaration_hear (d : Delivery) {heard : Option Declaration}
    (hnumbered : ∀ declaration ∈ heard, declaration.entries = entriesFrom 1 declaration.layout) :
    (s.hear d heard).declaration = heard.or s.declaration := by
  cases heard with
  | none => rfl
  | some declaration =>
      have hentries := hnumbered declaration rfl
      simp only [hear, advertise_declaration, ← hentries]
      rfl

theorem revisionAdvertised_hear (d : Delivery) (heard : Option Declaration) :
    (s.hear d heard).revisionAdvertised =
      (heard.bind Declaration.settingsRevision).or s.revisionAdvertised := by
  cases heard with
  | none => rfl
  | some declaration =>
      simp only [hear, advertise, Option.bind_some]
      rw [(noticeRevision_frame _ _ _).2.1]
      simp only [record]
      split <;> split <;> rfl

theorem revisionRead_hear (d : Delivery) (heard : Option Declaration) :
    (s.hear d heard).revisionRead = s.revisionRead := by
  cases heard with
  | none => rfl
  | some declaration => exact revisionRead_advertise

/-- The values stay where what is heard is what is known. -/
theorem values_hear (d : Delivery) {heard : Option Declaration}
    (hknown : ∀ declaration ∈ heard, s.declaration = some declaration) :
    (s.hear d heard).values = s.values := by
  cases heard with
  | none => rfl
  | some declaration =>
      have hdeclaration := hknown declaration rfl
      have hlayout : ({ s with now := s.now + d.seconds } : Cache).newLayout declaration.layout =
          false := by simp [newLayout, layoutChanges, hdeclaration]
      simp only [hear]
      rw [advertise_of_known hlayout, (noticeRevision_frame _ _ _).2.2.2.2.2]

end Cache

/-! ## A packet, heard again -/

namespace Listener

variable (aead : Aead) (table : ObjectTable) (address : List Char)

/-- `async_handle_advertisement`, of both views. -/
def hear (s : Listener) (payload : Bytes) (d : Delivery) : Listener where
  coordinator := s.coordinator.handleAdvertisement aead table address payload
  cache := s.cache.hear d (s.coordinator.hears aead table address payload)
  failures := s.failures.after (s.coordinator.opens aead address payload)
  declaration_eq := by
    rw [Coordinator.declaration_handleAdvertisement, ← s.declaration_eq]
    exact Cache.declaration_hear d fun _ => Coordinator.numbered_of_hears
  revision_eq := by
    rw [Coordinator.revisionAdvertised_handleAdvertisement, ← s.revision_eq]
    exact Cache.revisionAdvertised_hear d _

def hearAll (s : Listener) (payload : Bytes) (deliveries : List Delivery) : Listener :=
  Runs.run (fun s d => s.hear aead table address payload d) s deliveries

/-- What hearing a packet again is not to change. -/
structure Same (s s' : Listener) : Prop where
  declaration : s'.coordinator.declaration = s.coordinator.declaration
  values : ∀ number, s'.cache.valueOf number = s.cache.valueOf number
  revisionAdvertised : s'.coordinator.revisionAdvertised = s.coordinator.revisionAdvertised
  revisionRead : s'.cache.revisionRead = s.cache.revisionRead
  resyncCounter : s'.coordinator.asking.resyncCounter = s.coordinator.asking.resyncCounter
  encryptionCounter : s'.coordinator.encryptionCounter = s.coordinator.encryptionCounter
  bindkeyVerified : s'.coordinator.bindkeyVerified = s.coordinator.bindkeyVerified
  failures : s'.failures = s.failures

/-- The packet has been heard: there is nothing more in it for the coordinator. -/
structure Heard (s : Listener) (payload : Bytes) : Prop where
  coordinator : s.coordinator.handleAdvertisement aead table address payload = s.coordinator
  cleared : s.coordinator.opens aead address payload = some true →
    s.failures.authenticationFailures = 0

variable {aead table address} {s : Listener} {payload : Bytes}

theorem heard_hear (d : Delivery) :
    Heard aead table address (s.hear aead table address payload d) payload := by
  refine ⟨Coordinator.handleAdvertisement_handleAdvertisement, ?_⟩
  intro hopens
  have hbefore : s.coordinator.opens aead address payload = some true :=
    Coordinator.opens_handleAdvertisement.symm.trans hopens
  simp only [hear, hbefore]
  rfl

theorem Heard.hear (h : Heard aead table address s payload)
    (hopened : ¬ Coordinator.Unopened aead address s.coordinator payload) (d : Delivery) :
    Same s (s.hear aead table address payload d) ∧
      (s.hear aead table address payload d).coordinator = s.coordinator := by
  have hfailures : s.failures.after (s.coordinator.opens aead address payload) = s.failures := by
    rw [← Coordinator.opens_eq_false_iff] at hopened
    cases hopens : s.coordinator.opens aead address payload with
    | none => rfl
    | some opened =>
        cases opened with
        | false => exact absurd hopens hopened
        | true =>
            have hzero := h.cleared hopens
            rcases hf : s.failures with ⟨count, asks, calls⟩
            simp only [hf] at hzero
            rw [hzero]
            rfl
  have hknown : ∀ declaration ∈ s.coordinator.hears aead table address payload,
      s.cache.declaration = some declaration := by
    intro declaration hheard
    rw [s.declaration_eq, ← h.coordinator, Coordinator.declaration_handleAdvertisement,
      Option.mem_def.mp hheard]
    rfl
  refine ⟨?_, h.coordinator⟩
  exact
    { declaration := congrArg Coordinator.declaration h.coordinator
      values := fun number =>
        congrArg (fun values => (values number).map Held.value) (Cache.values_hear d hknown)
      revisionAdvertised := congrArg Coordinator.revisionAdvertised h.coordinator
      revisionRead := Cache.revisionRead_hear d _
      resyncCounter := congrArg (fun c => c.asking.resyncCounter) h.coordinator
      encryptionCounter := congrArg Coordinator.encryptionCounter h.coordinator
      bindkeyVerified := congrArg Coordinator.bindkeyVerified h.coordinator
      failures := hfailures }

theorem Same.refl (s : Listener) : Same s s := ⟨rfl, fun _ => rfl, rfl, rfl, rfl, rfl, rfl, rfl⟩

theorem Same.trans {s' s'' : Listener} (h : Same s s') (h' : Same s' s'') : Same s s'' where
  declaration := h'.declaration.trans h.declaration
  values := fun number => (h'.values number).trans (h.values number)
  revisionAdvertised := h'.revisionAdvertised.trans h.revisionAdvertised
  revisionRead := h'.revisionRead.trans h.revisionRead
  resyncCounter := h'.resyncCounter.trans h.resyncCounter
  encryptionCounter := h'.encryptionCounter.trans h.encryptionCounter
  bindkeyVerified := h'.bindkeyVerified.trans h.bindkeyVerified
  failures := h'.failures.trans h.failures

theorem Heard.hearAll (h : Heard aead table address s payload)
    (hopened : ¬ Coordinator.Unopened aead address s.coordinator payload)
    (deliveries : List Delivery) :
    Same s (s.hearAll aead table address payload deliveries) := by
  induction deliveries generalizing s with
  | nil => exact Same.refl s
  | cons d rest ih =>
      obtain ⟨hsame, hcoordinator⟩ := h.hear hopened d
      exact hsame.trans (ih (heard_hear d) (hcoordinator ▸ hopened))

variable (table) in
/-- Every delivery of a packet that cannot be opened counts. -/
theorem failures_hearAll (hunopened : Coordinator.Unopened aead address s.coordinator payload)
    (deliveries : List Delivery) :
    (s.hearAll aead table address payload deliveries).failures.authenticationFailures =
      s.failures.authenticationFailures + deliveries.length := by
  induction deliveries generalizing s with
  | nil => rfl
  | cons d rest ih =>
      have hopens := Coordinator.opens_eq_false_iff.mpr hunopened
      have hagain : (s.hear aead table address payload d).coordinator.opens aead address payload =
          some false := Coordinator.opens_handleAdvertisement.trans hopens
      have hcount : (s.hear aead table address payload d).failures.authenticationFailures =
          s.failures.authenticationFailures + 1 := by
        simp only [hear, hopens, Failures.after, Failures.authenticationFailed]
        split <;> rfl
      have hrest := ih (Coordinator.opens_eq_false_iff.mp hagain)
      rw [hcount] at hrest
      simp only [hearAll, Runs.run_cons, List.length_cons] at hrest ⊢
      omega

/-- Hearing a packet twice and more often is hearing it once, for every coordinator and payload
exactly if the payload is not one that cannot be opened. -/
theorem heard_again_iff (aead : Aead) (table : ObjectTable) (address : List Char) (s : Listener)
    (payload : Bytes) (first second : Delivery) (rest : List Delivery) :
    Same (s.hear aead table address payload first)
        (s.hearAll aead table address payload (first :: second :: rest)) ↔
      ¬ Coordinator.Unopened aead address s.coordinator payload := by
  constructor
  · intro hsame hunopened
    have hcounts := failures_hearAll table (s := s) hunopened
    have hequal := congrArg Failures.authenticationFailures hsame.failures
    have hboth : s.failures.authenticationFailures + (first :: second :: rest).length =
        s.failures.authenticationFailures + [first].length :=
      calc s.failures.authenticationFailures + (first :: second :: rest).length
          = (s.hearAll aead table address payload
              (first :: second :: rest)).failures.authenticationFailures := (hcounts _).symm
        _ = (s.hear aead table address payload first).failures.authenticationFailures := hequal
        _ = s.failures.authenticationFailures + [first].length := hcounts [first]
    simp only [List.length_cons, List.length_nil] at hboth
    omega
  · intro hopened
    apply (heard_hear first).hearAll
    rwa [← Coordinator.opens_eq_false_iff, hear, Coordinator.opens_handleAdvertisement,
      Coordinator.opens_eq_false_iff]

def sampleListener : Listener where
  coordinator := Coordinator.sampleStart
  cache := .start none fun _ => false
  failures := ⟨0, true, 0⟩
  declaration_eq := rfl
  revision_eq := rfl

/-- One stray packet through two proxies: two failures, and the key is asked for. -/
theorem stray_packet_asks_for_key :
    let hear := fun deliveries => sampleListener.hearAll (Aead.tagging [] []) (fun _ => none)
      "C1:11:22:33:44:55".toList (Coordinator.sampleAdvertisement 300 [9, 9, 9, 9]) deliveries
    let proxy : Delivery := ⟨0, true, fun _ => false⟩
    (hear [proxy]).failures = ⟨1, true, 0⟩ ∧ (hear [proxy, proxy]).failures = ⟨2, true, 1⟩ ∧
      ¬ Same (hear [proxy]) (hear [proxy, proxy]) := by
  refine ⟨by decide +kernel, by decide +kernel, ?_⟩
  intro hsame
  exact absurd hsame.failures (by decide +kernel)

end Listener

end BTHomeWritable.Receiver
