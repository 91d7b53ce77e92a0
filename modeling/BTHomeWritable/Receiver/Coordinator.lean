import BTHomeWritable.Receiver.Asking
import BTHomeWritable.Receiver.QueueOrder

/-!
# The coordinator around its queue

Advertisements move the declaration, entities put commands in the queue, and
`_write_now` delivers the command that the flush task has taken.  From the pop
to the first await of `_write_now` everything is one step: the checks, the look
at the declaration and the encoding.  The connection comes later, and whatever
happens meanwhile happens in steps of its own.

`handleAdvertisement` goes by the packet's `plaintext` and by `noticeRevision`;
`beginWrite` is `_write_now` up to its first await and `transmit` the write that
goes out.  `step` adds the steps of the queue.

What is only shown or measured (availability, timings) is left out, and the held
values with the read loop are a machine of their own.  `encodedFor` records for
every call the object its entity was built for, `attempts` what `_write_now` made
of the commands it was given, and `sent` what went out.

The queue in the middle takes the steps `queueActs` reads off the coordinator's
(`queue_step`), and what holds of every run of a queue holds of it:
`drainsInOrder_run` carries the law of the queue over.
-/

namespace BTHomeWritable.Receiver

open Overtaking (Mark entries pops)

def ALLOW_PLAINTEXT_DOWNGRADE : Bool := false
def ALLOW_COUNTER_SYNC : Bool := true
def COUNTER_RESTART_CEILING : ℕ := 100

/-- Entry and object that a `BTHomeWritableEntity` was built for. -/
structure Control where
  entry : ℤ
  objectId : UInt8
  coalesce : Bool
  deriving DecidableEq

/-- How `_write_now` starts on a command: what the entry was declared as, and the entry and
plaintext it goes on with, unless it raises. -/
structure Attempt where
  command : Queued
  declared : Option UInt8
  outcome : Except WriteError (WritableEntry × Bytes)

/-- A characteristic write: the plaintext object and the bytes on the wire. -/
structure Sent where
  command : Queued
  plain : Bytes
  payload : Bytes
  deriving DecidableEq

structure Coordinator where
  bindkey : Option Bytes
  bindkeyVerified : Option Bool
  encryptionCounter : ℕ
  advertisesEncrypted : Option Bool
  declaration : Option Declaration
  revisionAdvertised : Option ℕ
  asking : Asking
  reachable : Bool
  queue : Queue
  encodedFor : List UInt8
  attempts : List Attempt
  sent : List Sent

/-- `reply` is what the device makes of the counter question, if it is asked. -/
inductive CoordinatorAct where
  | apply (control : Control) (value : Bytes)
  | advertise (payload : Bytes)
  | appear (reachable : Bool)
  | grant
  | transmit (task : ℕ) (challenge : Bytes) (reply : Reply)
  | acknowledge (task : ℕ) (raises : Bool)
  | finish (task : ℕ) (result : Except WriteError Unit) (raises : Bool)
  | cancel (task : ℕ)

/-- The command that a step takes from the queue. -/
def Queue.takes (q : Queue) : QueueAct → Option Queued
  | .grant =>
      match q.lock with
      | .flush i :: _ => if q.tasks[i]? = some .acquiring then q.pending.head? else none
      | _ => none
  | .finish i _ raises =>
      match q.tasks[i]? with
      | some (.writing _ answered) =>
          if q.lock = [] ∧ (answered ∨ !raises) then q.pending.head? else none
      | _ => none
  | _ => none

/-- `encode_object`. -/
def encodeObject (entry : WritableEntry) (value : Bytes) : Bytes := entry.objectId :: value

/-- Neither a cancellation nor a listener that raises outside `_write_now`. -/
def CoordinatorAct.Calm : CoordinatorAct → Prop
  | .cancel _ => False
  | .finish _ _ raises => raises = false
  | _ => True

namespace Coordinator

/-- A coordinator as it is constructed, with a declaration remembered or not. -/
def start (bindkey : Option Bytes) (declaration : Option Declaration) (writeCounter : ℤ) :
    Coordinator where
  bindkey := bindkey
  bindkeyVerified := none
  encryptionCounter := 0
  advertisesEncrypted := none
  declaration := declaration
  revisionAdvertised := none
  asking := ⟨⟨writeCounter, writeCounter, []⟩, false, none, false⟩
  reachable := false
  queue := Queue.empty
  encodedFor := []
  attempts := []
  sent := []

/-! ## Advertisements -/

/-- `_counter_increased`. -/
def counterIncreased (s : Coordinator) (payload : Bytes) : Bool :=
  match advertisingCounter payload with
  | none => true
  | some counter =>
      s.bindkeyVerified ≠ some true || decide (counter ≥ s.encryptionCounter) ||
        decide (counter < COUNTER_RESTART_CEILING)

variable (aead : Aead) (table : ObjectTable) (address : List Char)

/-- `_plaintext`: the coordinator it leaves and the object stream. -/
def plaintext (s : Coordinator) (payload : Bytes) :
    Coordinator × Except PyError (Option Bytes) :=
  let s : Coordinator := { s with advertisesEncrypted := some (isEncrypted payload) }
  if !isEncrypted payload then (s, .ok (some (payload.drop (objectsAt payload))))
  else
    match s.bindkey with
    | none => ({ s with bindkeyVerified := some false }, .ok none)
    | some bindkey =>
        if !s.counterIncreased payload then (s, .ok none)
        else
          match decryptAdvertising aead payload bindkey address with
          | .error e => (s, .error e)
          | .ok none => ({ s with bindkeyVerified := some false }, .ok none)
          | .ok (some objects) =>
              ({ s with
                  bindkeyVerified := some true
                  encryptionCounter := (advertisingCounter payload).getD s.encryptionCounter },
                .ok (some objects))

/-- `_notice_revision`, up to the read it asks for. -/
def noticeRevision (s : Coordinator) : Option ℕ → Coordinator
  | none => s
  | some revision =>
      let arms := s.revisionAdvertised.isSome && s.revisionAdvertised ≠ some revision &&
        ALLOW_COUNTER_SYNC && s.bindkey.isSome && s.asking.offersCounterReport ≠ some false
      { s with
        revisionAdvertised := some revision
        asking := if arms then { s.asking with resyncCounter := true } else s.asking }

/-- `async_handle_advertisement`. -/
def handleAdvertisement (s : Coordinator) (payload : Bytes) : Coordinator :=
  if payload.isEmpty then s
  else
    match s.plaintext aead address payload with
    | (s, .error _) => s
    | (s, .ok none) => s
    | (s, .ok (some objects)) =>
        match parseDeclaration table objects with
        | .error _ => s
        | .ok none => s
        | .ok (some declaration) =>
            noticeRevision { s with declaration := some declaration } declaration.settingsRevision

/-! ## Commands -/

def entry (s : Coordinator) (number : ℤ) : Option WritableEntry :=
  match s.declaration with
  | none => none
  | some declaration =>
      if 1 ≤ number ∧ number ≤ declaration.entries.length then
        declaration.entries[(number - 1).toNat]?
      else none

/-- What entry `number` is declared as. -/
def declared (s : Coordinator) (number : ℤ) : Option UInt8 :=
  (s.entry number).map WritableEntry.objectId

def stillDeclared (s : Coordinator) (number : ℤ) (objectId : UInt8) : Bool :=
  match s.entry number with
  | none => false
  | some declared => declared.objectId = objectId

/-- `_write_now` up to its first await. -/
def beginWrite (s : Coordinator) (c : Queued) : Except WriteError (WritableEntry × Bytes) :=
  let address := String.ofList address
  if s.bindkey.isSome && s.advertisesEncrypted = some false && !ALLOW_PLAINTEXT_DOWNGRADE then
    .error ⟨s!"{address}: a bindkey is configured but the device is " ++
      "advertising in clear. Refusing to send an unencrypted " ++
      "write. Either reflash the device with encryption enabled, " ++
      "or reconfigure this device and clear the bindkey"⟩
  else if s.bindkey.isNone && s.advertisesEncrypted = some true then
    .error ⟨s!"{address}: the device is advertising encrypted but no " ++
      "bindkey is configured here, so this write would go out in " ++
      "clear and be discarded without a word. Reconfigure this " ++
      "device and give it its bindkey"⟩
  else if s.declaration.isNone then
    .error ⟨s!"{address}: no declaration seen yet, refusing to write"⟩
  else if !s.reachable then
    .error ⟨s!"{address}: not reachable by any adapter or proxy"⟩
  else
    match s.entry c.entry with
    | none => .error ⟨s!"{address}: entry {c.entry} is not in the declaration"⟩
    | some entry => .ok (entry, encodeObject entry c.value)

/-- A step of the queue, and `_write_now` on the command it takes, if it takes one. -/
def through (s : Coordinator) (act : QueueAct) : Coordinator :=
  { s with
    queue := s.queue.step (String.ofList address) act
    attempts := s.attempts ++ (s.queue.takes act).toList.map fun c =>
      ⟨c, s.declared c.entry, s.beginWrite address c⟩ }

/-- What task `i` is at in `_write_now`. -/
def writing (s : Coordinator) (i : ℕ) : Option Attempt :=
  match s.queue.tasks[i]? with
  | some (.writing c _) => s.attempts.find? (·.command = c)
  | _ => none

/-- The characteristic of the command has been written. -/
def isSent (s : Coordinator) (c : Queued) : Bool := s.sent.any (·.command = c)

/-- On the link, up to the characteristic write: the counter question if it is armed, which it is
only under a key, and the seal. -/
def transmit (s : Coordinator) (i : ℕ) (challenge : Bytes) (reply : Reply) : Coordinator :=
  match s.writing i with
  | some ⟨c, _, .ok (_, plain)⟩ =>
      if s.isSent c then s
      else
        match s.bindkey with
        | none => { s with sent := s.sent ++ [⟨c, plain, plain⟩] }
        | some bindkey =>
            -- the counter is drawn after the question, on the same link
            match if s.asking.resyncCounter then
                askForTheCounterHere aead bindkey address s.asking challenge reply
              else .ok s.asking with
            | .error _ => s
            | .ok asking =>
                let (counter, counters) := asking.counters.nextWriteCounter
                let s : Coordinator := { s with asking := { asking with counters := counters } }
                match sealWrite aead plain bindkey address counter with
                | .error _ => s
                | .ok payload => { s with sent := s.sent ++ [⟨c, plain, payload⟩] }
  | _ => s

def step (s : Coordinator) : CoordinatorAct → Coordinator
  | .apply control value =>
      if s.stillDeclared control.entry control.objectId then
        through address { s with encodedFor := s.encodedFor ++ [control.objectId] }
          (.call control.entry value control.coalesce)
      else s
  | .advertise payload => s.handleAdvertisement aead table address payload
  | .appear reachable => { s with reachable := reachable }
  | .grant => s.through address .grant
  | .transmit i challenge reply => s.transmit aead address i challenge reply
  | .acknowledge i raises =>
      match s.writing i with
      | some attempt =>
          if s.isSent attempt.command then s.through address (.acknowledge i raises) else s
      | none => s
  | .finish i result raises =>
      match s.writing i with
      | some ⟨_, _, .error e⟩ => s.through address (.finish i (.error e) raises)
      | some ⟨_, _, .ok _⟩ => s.through address (.finish i result raises)
      | none => s
  | .cancel i => s.through address (.cancel i)

/-! ## The queue of a coordinator -/

/-- What a step is to the queue. -/
def queueActs (s : Coordinator) : CoordinatorAct → List QueueAct
  | .apply control value =>
      if s.stillDeclared control.entry control.objectId then
        [.call control.entry value control.coalesce]
      else []
  | .grant => [.grant]
  | .acknowledge i raises =>
      match s.writing i with
      | some attempt => if s.isSent attempt.command then [.acknowledge i raises] else []
      | none => []
  | .finish i result raises =>
      match s.writing i with
      | some ⟨_, _, .error e⟩ => [.finish i (.error e) raises]
      | some ⟨_, _, .ok _⟩ => [.finish i result raises]
      | none => []
  | .cancel i => [.cancel i]
  | _ => []

/-- What an advertisement, a connection or a look at the adapters leaves alone. -/
structure Frame (s s' : Coordinator) : Prop where
  queue : s'.queue = s.queue
  encodedFor : s'.encodedFor = s.encodedFor
  attempts : s'.attempts = s.attempts
  sent : s'.sent = s.sent
  bindkey : s'.bindkey = s.bindkey

variable {aead table address} {s : Coordinator}

theorem frame_handleAdvertisement (payload : Bytes) :
    Frame s (s.handleAdvertisement aead table address payload) := by
  have hplaintext : Frame s (s.plaintext aead address payload).1 := by
    unfold plaintext
    simp only
    split
    · exact ⟨rfl, rfl, rfl, rfl, rfl⟩
    split
    · exact ⟨rfl, rfl, rfl, rfl, rfl⟩
    split
    · exact ⟨rfl, rfl, rfl, rfl, rfl⟩
    split <;> exact ⟨rfl, rfl, rfl, rfl, rfl⟩
  have hnotice : ∀ (s' : Coordinator) (revision : Option ℕ), Frame s s' →
      Frame s (s'.noticeRevision revision) := by
    intro s' revision hframe
    cases revision with
    | none => exact hframe
    | some revision =>
        exact ⟨hframe.queue, hframe.encodedFor, hframe.attempts, hframe.sent, hframe.bindkey⟩
  unfold handleAdvertisement
  split
  · exact ⟨rfl, rfl, rfl, rfl, rfl⟩
  split
  · rename_i hplain
    rw [hplain] at hplaintext
    exact hplaintext
  · rename_i hplain
    rw [hplain] at hplaintext
    exact hplaintext
  · rename_i hplain
    rw [hplain] at hplaintext
    split
    · exact hplaintext
    · exact hplaintext
    · exact hnotice _ _ ⟨hplaintext.queue, hplaintext.encodedFor, hplaintext.attempts,
        hplaintext.sent, hplaintext.bindkey⟩

theorem queue_transmit (i : ℕ) (challenge : Bytes) (reply : Reply) :
    (s.transmit aead address i challenge reply).queue = s.queue := by
  unfold transmit
  split
  · split
    · rfl
    split
    · rfl
    · split
      · rfl
      · simp only
        split <;> rfl
  · rfl

theorem queue_step (s : Coordinator) (a : CoordinatorAct) :
    (s.step aead table address a).queue =
      Runs.run (Queue.step (String.ofList address)) s.queue (s.queueActs a) := by
  match a with
  | .apply control value =>
      simp only [step, queueActs]
      split <;> rfl
  | .advertise payload => exact (frame_handleAdvertisement payload).queue
  | .appear reachable => rfl
  | .grant => rfl
  | .transmit i challenge reply => exact queue_transmit i challenge reply
  | .acknowledge i raises =>
      simp only [step, queueActs]
      split
      · split <;> rfl
      · rfl
  | .finish i result raises =>
      simp only [step, queueActs]
      split <;> rfl
  | .cancel i => rfl

theorem calm_queueActs (s : Coordinator) {a : CoordinatorAct} (ha : a.Calm) :
    ∀ b ∈ s.queueActs a, b.Calm := by
  intro b hb
  match a with
  | .apply control value =>
      obtain ⟨-, rfl⟩ : _ ∧ b = _ := by simpa [queueActs] using hb
      trivial
  | .advertise _ | .appear _ | .transmit _ _ _ => cases hb
  | .grant =>
      obtain rfl := List.mem_singleton.mp hb
      trivial
  | .acknowledge i raises =>
      simp only [queueActs] at hb
      split at hb
      · obtain ⟨-, rfl⟩ : _ ∧ b = _ := by simpa using hb
        trivial
      · cases hb
  | .finish i result raises =>
      simp only [queueActs] at hb
      split at hb
      · obtain rfl := List.mem_singleton.mp hb
        exact ha
      · obtain rfl := List.mem_singleton.mp hb
        exact ha
      · cases hb
  | .cancel i => exact absurd ha id

/-- The law of the queue holds in a coordinator, whatever it hears meanwhile: a calm run of it is
to its queue a calm run of the queue. -/
theorem drainsInOrder_run (bindkey : Option Bytes) (declaration : Option Declaration)
    (writeCounter : ℤ) {acts : List CoordinatorAct} (hcalm : ∀ a ∈ acts, a.Calm) :
    Queue.DrainsInOrder (String.ofList address)
      (Runs.run (step aead table address) (start bindkey declaration writeCounter) acts).queue := by
  have hstep : ∀ (s : Coordinator) (a : CoordinatorAct) (q : Queue), a.Calm → s.queue = q →
      ∃ queueActs, (∀ b ∈ queueActs, b.Calm) ∧ (s.step aead table address a).queue =
        Runs.run (Queue.step (String.ofList address)) q queueActs := by
    rintro s a _ ha rfl
    exact ⟨s.queueActs a, calm_queueActs s ha, queue_step s a⟩
  obtain ⟨queueActs, hqueue, hrun⟩ := Runs.run_simulation
    (R := fun (s : Coordinator) q => s.queue = q) (s := start bindkey declaration writeCounter)
    hstep rfl hcalm
  rw [hrun]
  exact (Queue.orderInv_empty.run hqueue).drainsInOrder

end Coordinator

end BTHomeWritable.Receiver
