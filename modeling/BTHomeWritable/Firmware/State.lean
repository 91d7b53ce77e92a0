import BTHomeWritable.Device.Counters
import BTHomeWritable.Device.Plan
import BTHomeWritable.Lib.Throwing

/-!
# A running device and what it calls out to

`BTHomeWritable.js` below its divider, for claims about whole events: the module
variable `st`, the radio, the timers and the characteristics around it, and an
environment `Env` that answers every call the module makes to code outside it.
Each such call has a number, counted in `calls`; the environment is a function
of the number, so that an arbitrary one stands for every pattern of readings and
of throws.  A pass over the sensors is one call, with an answer for each entry.

`st` is never null here: the functions run after a first `setup()`, and
`Board`, in the module on `setup`, is the device before it as well.  Callbacks
of the user do not call the module back.

Four fields are read by nothing in the module and record what happened: `sets`
the calls of a `set()`, `handed` the packets the radio was given, `returned` what
stood at each return of `tick`, `update` and `publishChange`, and the provenance
that `Held` keeps with a value.
-/

namespace BTHomeWritable.Firmware

open Device Throwing

def READ_SLACK : ℤ := 100
def CHANGE_HOLD : ℤ := 250

/-! ## What is outside the module -/

/-- A value thrown by code outside the module: its code, if it has one that is not falsy. -/
structure Foreign where
  code : Option String
  message : String
  deriving DecidableEq

def Foreign.error (f : Foreign) : JsError := ⟨f.code.map .foreign, f.message⟩

/-- What `set()` is called with; a number is `raw / scale`. -/
inductive Value where
  | text (chars : List Char)
  | boolean (b : Bool)
  | code (b : UInt8)
  | number (raw : ℤ) (scale : ℕ)
  | bytes (b : Bytes)
  deriving DecidableEq

/-- The options of `NRF.setAdvertising`. -/
structure AdvOptions where
  interval : ℤ
  connectable : Bool
  scannable : Bool
  discoverable : Bool
  whenConnected : Bool
  showName : Bool
  deriving DecidableEq

/-- A call that may throw, and of which nothing else comes back. -/
inductive Call where
  | readMarks
  | writeMarks
  | encrypt
  | decrypt
  | onError (e : JsError)
  | setAdvertising (sd : Bytes) (opts : AdvOptions)
  | updateServices
  | setServices
  deriving DecidableEq

/-- The environment: what each call comes to, by its number. -/
structure Env where
  ccm : Aead
  /-- `NRF.getAddress()`. -/
  address : List Char
  /-- `encodeOne(e, v)` for a value `writableSpec` probes with. -/
  probe : Entry → Probe → Except Foreign Obj
  /-- `getTime() * 1000`. -/
  clock : ℕ → ℤ
  /-- `Math.floor(Math.random() * 256)`. -/
  random : ℕ → ℕ
  /-- `encodeOne(e, e.get())` for entry `i`, or an object that holds the bytes of `e.get()`. -/
  read : ℕ → ℕ → Except Foreign Obj
  /-- `set(v)` of entry `i`; a throw of `none` is one of a falsy value. -/
  set : ℕ → ℕ → Value → Except (Option Foreign) Unit
  throws : ℕ → Call → Option Foreign

def Env.encoder (env : Env) (e : Entry) (v : Probe) : Except JsError Obj :=
  (env.probe e v).mapError Foreign.error

def Env.reading (env : Env) (n i : ℕ) : Except JsError Obj :=
  (env.read n i).mapError Foreign.error

/-! ## The module's state -/

/-- The object `st` refers to; `object` tells it from those of other `setup()` calls. -/
structure St where
  object : ℕ
  entries : List Entry
  key : Option Bytes
  mac : Bytes
  advCounter : ℕ
  advMark : ℕ
  writeCounter : ℕ
  writeMark : ℕ
  plan : Plan
  revision : ℕ
  showName : Bool
  packetId : ℕ
  rejects : String → ℕ
  interval : ℤ
  fastInterval : ℤ
  fastTimeout : ℤ
  whenConnected : Bool
  onError : Bool
  timer : Option ℕ
  fastTimer : Option ℕ
  changeTimer : Option ℕ
  advInterval : ℤ
  lastSd : Option Bytes

/-- What a timeout calls. -/
inductive Job where
  | wake
  | goIdle
  | publishChange
  deriving DecidableEq

/-- An armed timeout. -/
structure Timer where
  handle : ℕ
  job : Job
  delay : ℤ
  deriving DecidableEq

/-- A pending zero-delay callback. -/
inductive Deferred where
  | publishRead (w : Writable)
  | counterReport (challenge : Bytes)
  deriving DecidableEq

/-- The value of a characteristic, and where it comes from. -/
inductive Held where
  | unset
  /-- Published by the module, as its reading of `w`. -/
  | served (w : Writable) (bytes : Bytes)
  /-- Stored by the stack when a central wrote it. -/
  | written (bytes : Bytes)
  deriving DecidableEq

structure SetCall where
  entryIndex : ℕ
  value : Value
  returned : Bool
  deriving DecidableEq

/-- A packet handed to the radio, with what the device was then. -/
structure Handed where
  sd : Bytes
  opts : AdvOptions
  accepted : Bool
  st : St
  held : ℕ → Held

/-- `st` and the last packet the radio accepted. -/
structure Snapshot where
  st : St
  air : Option Bytes

/-- Everything but `st`. -/
structure Outside where
  calls : ℕ
  file : Option MarksFile
  timers : List Timer
  nextTimer : ℕ
  deferred : List Deferred
  held : ℕ → Held
  reportOffered : Bool
  report : Bytes
  air : Option Bytes
  listening : Bool
  sets : List SetCall
  handed : List Handed
  returned : List Snapshot

structure World extends Outside where
  st : St

abbrev Fw := EStateM JsError World

def typeError : JsError := ⟨none, "Cannot read property of undefined"⟩

/-- The text of a code. -/
def codeText : ErrCode → String
  | .forbiddenEntry => "forbidden_entry"
  | .tooManyEntries => "too_many_entries"
  | .capacityExceeded => "capacity_exceeded"
  | .truncated => "truncated"
  | .objectidMismatch => "objectid_mismatch"
  | .trailingBytes => "trailing_bytes"
  | .writableWithoutLength => "writable_without_length"
  | .unsupportedWritableType => "unsupported_writable_type"
  | .writableNeedsId => "writable_needs_id"
  | .entryWithoutAccessor => "entry_without_accessor"
  | .layoutDrift => "layout_drift"
  | .challengeLength => "challenge_length"
  | .counterNotIncreasing => "counter_not_increasing"
  | .micMismatch => "mic_mismatch"
  | .entryNotDeclared => "entry_not_declared"
  | .advertisingRejected => "advertising_rejected"
  | .counterReportFailed => "counter_report_failed"
  | .intervalOutOfRange => "interval_out_of_range"
  | .bindkeyLength => "bindkey_length"
  | .bindkeyNotHex => "bindkey_not_hex"
  | .notReadable => "not_readable"
  | .fastTimeoutNegative => "fast_timeout_negative"
  | .foreign code => code

/-- `e.code || "error"`. -/
def countedUnder (e : JsError) : String := (e.code.map codeText).getD "error"

/-- The members an object has without being given any.  `st.rejects` has them too, and
`(f || 0) + 1` of a function is a text. -/
def OBJECT_MEMBERS : List String :=
  ["constructor", "hasOwnProperty", "isPrototypeOf", "propertyIsEnumerable", "toLocaleString",
    "toString", "valueOf", "__proto__", "__defineGetter__", "__defineSetter__",
    "__lookupGetter__", "__lookupSetter__"]

namespace World

variable (w : World)

/-! ## Assignments -/

def asked : World := { w with calls := w.calls + 1 }

/-- `st.advCounter = (st.advCounter + 1) >>> 0`. -/
def bumpAdvCounter : World :=
  { w with st := { w.st with advCounter := toUint32 ((w.st.advCounter : ℤ) + 1) } }

/-- `st.advMark = (counter + ADV_STRIDE) >>> 0`. -/
def setAdvMark (counter : ℕ) : World :=
  { w with st := { w.st with advMark := toUint32 ((counter : ℤ) + ADV_STRIDE) } }

def setWriteCounter (counter : ℕ) : World :=
  { w with st := { w.st with writeCounter := counter } }

/-- `st.writeMark = (counter + CTR_STRIDE) >>> 0`. -/
def setWriteMark (counter : ℕ) : World :=
  { w with st := { w.st with writeMark := toUint32 ((counter : ℤ) + CTR_STRIDE) } }

/-- What `Storage.writeJSON` has done when it returns. -/
def writeJSON : World :=
  { w with file := some (.object (some w.st.writeMark) (some w.st.advMark)) }

/-- `st.rejects[c] = (st.rejects[c] || 0) + 1`. -/
def countReject (e : JsError) : World :=
  if countedUnder e ∈ OBJECT_MEMBERS then w
  else
    { w with
      st := { w.st with
        rejects := Function.update w.st.rejects (countedUnder e)
          (w.st.rejects (countedUnder e) + 1) } }

def noteSet (entryIndex : ℕ) (value : Value) (returned : Bool) : World :=
  { w with sets := w.sets ++ [⟨entryIndex, value, returned⟩] }

def defer (d : Deferred) : World := { w with deferred := w.deferred ++ [d] }

/-- `st.packetId = (st.packetId + 1) & 255`. -/
def bumpPacketId : World :=
  { w with st := { w.st with packetId := (w.st.packetId + 1) % 256 } }

/-- `st.revision = (st.revision + 1) & 255`. -/
def bumpRevision : World :=
  { w with st := { w.st with revision := (w.st.revision + 1) % 256 } }

def setPlan (p : Plan) : World := { w with st := { w.st with plan := p } }

def setOrdered (ordered : List Sensor) : World :=
  w.setPlan { w.st.plan with ordered := ordered }

/-- The radio is handed a packet. -/
def hand (sd : Bytes) (opts : AdvOptions) (accepted : Bool) : World :=
  { w with handed := w.handed ++ [⟨sd, opts, accepted, w.st, w.held⟩] }

/-- The radio accepted a packet. -/
def onAir (sd : Bytes) : World := { w with air := some sd, st := { w.st with lastSd := some sd } }

def dropLastSd : World := { w with st := { w.st with lastSd := none } }

def setAdvInterval (v : ℤ) : World := { w with st := { w.st with advInterval := v } }

def noteReturn : World := { w with returned := w.returned ++ [⟨w.st, w.air⟩] }

/-- `NRF.updateServices` on the characteristic of `writable`. -/
def serve (writable : Writable) (bytes : Bytes) : World :=
  { w with held := Function.update w.held writable.entry (.served writable bytes) }

/-! ## Timers -/

/-- `clearTimeout(handle)`. -/
def clearTimeout (handle : ℕ) : World :=
  { w with timers := w.timers.filter (·.handle ≠ handle) }

/-- `setTimeout(job, delay)`; the handle is the `nextTimer` of before. -/
def setTimeout (job : Job) (delay : ℤ) : World :=
  { w with timers := w.timers ++ [⟨w.nextTimer, job, delay⟩], nextTimer := w.nextTimer + 1 }

/-- `if (st.timer !== undefined) { clearTimeout(st.timer); st.timer = undefined; }`. -/
def clearTimer : World :=
  match w.st.timer with
  | none => w
  | some handle => { w.clearTimeout handle with st := { w.st with timer := none } }

def setTimer (delay : ℤ) : World :=
  { w.setTimeout .wake delay with st := { w.st with timer := some w.nextTimer } }

def clearFastTimer : World :=
  match w.st.fastTimer with
  | none => w
  | some handle => { w.clearTimeout handle with st := { w.st with fastTimer := none } }

def setFastTimer : World :=
  { w.setTimeout .goIdle w.st.fastTimeout with
    st := { w.st with fastTimer := some w.nextTimer } }

def setChangeTimer : World :=
  { w.setTimeout .publishChange CHANGE_HOLD with
    st := { w.st with changeTimer := some w.nextTimer } }

end World

/-! ## Calling out -/

/-- A call that may throw. -/
def ask (env : Env) (call : Call) : Fw Unit := fun w =>
  match env.throws w.calls call with
  | none => .ok () w.asked
  | some f => .error f.error w.asked

theorem ask_of_none {env : Env} {call : Call} {w : World} (h : env.throws w.calls call = none) :
    ask env call w = .ok () w.asked := by
  simp only [ask, h]

theorem ask_of_some {env : Env} {call : Call} {w : World} {f : Foreign}
    (h : env.throws w.calls call = some f) : ask env call w = .error f.error w.asked := by
  simp only [ask, h]

/-- `getTime() * 1000`. -/
def getTime (env : Env) : Fw ℤ := fun w => .ok (env.clock w.calls) w.asked

end BTHomeWritable.Firmware
