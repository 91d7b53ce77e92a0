import BTHomeWritable.Firmware.Writes
import BTHomeWritable.Lib.Runs

/-!
# `setup()` and the device's life

`setup` builds the new state whole (`buildNext`), lets the old one go with its
timers (`Board.swap`), and then claims the counters, registers the
characteristics and publishes (`install`).  Up to the swap it can throw and leave
the device as it was; after it, what was changed stays.

A `Board` is the device from its power-on, with the state `setup` has left it in
and without one before the first.  Its events are a `setup` or, on a device that
has been set up, an `Event`: everything the module reacts to.  `Board.step` is one
of them and `powerOn` the start.

The last section is a device to run: a light that can be read and written and a
battery, in an environment that answers.
-/

namespace BTHomeWritable.Firmware

open Device Throwing

inductive Bindkey where
  | bytes (b : Bytes)
  | text (chars : List Char)

/-- The options of `setup()`, `undefined` as `none`. -/
structure SetupOpts where
  advertise : List Entry
  interval : Option ℤ
  fastInterval : Option ℤ
  fastTimeout : Option ℤ
  bindkey : Option Bindkey
  /-- `opts.whenConnected !== false`. -/
  whenConnected : Bool
  /-- `opts.showName !== false`. -/
  showName : Bool
  maxServiceData : Option ℤ
  /-- `opts.counterReport === true`. -/
  counterReport : Bool
  onError : Bool

/-- `v || d`. -/
def orElse (v : Option ℤ) (d : ℤ) : ℤ := if v.getD 0 = 0 then d else v.getD 0

/-- Folds A-F onto a-f and leaves 0-9 alone. -/
def isHexCode (c : Char) : Bool :=
  let folded := c.toNat ||| 32
  (48 ≤ folded && folded ≤ 57) || (97 ≤ folded && folded ≤ 102)

def toKey : Option Bindkey → Except JsError (Option Bytes)
  | none => .ok none
  | some (.bytes a) =>
      if a.length ≠ 16 then
        .error (err .bindkeyLength s!"bindkey is {a.length} bytes, expected 16")
      else .ok (some a)
  | some (.text v) =>
      if v.length ≠ 32 then
        .error (err .bindkeyLength s!"bindkey is {v.length} hex characters, expected 32")
      else
        match v.findIdx? fun c => !isHexCode c with
        | some i =>
            let c := v.getD i default
            .error (err .bindkeyNotHex s!"bindkey character {i} (\"{c}\") is not hexadecimal")
        | none =>
            .ok (some ((List.range 16).map fun i =>
              UInt8.ofNat (parseIntHex ((v.drop (2 * i)).take 2) 0)))

variable (env : Env)

/-- `loadMarks()` of a device with a key; `readJSON` is call number `calls`. -/
def resumedMarks (key : Option Bytes) (o : Outside) : Except JsError Marks :=
  if key.isSome then
    match env.throws o.calls .readMarks with
    | some f => .error f.error
    | none => .ok (loadMarks o.file)
  else .ok { w := 0, a := 0 }

/-- `next`: the device's new state, built whole before the old one is let go.  The sensors are
read in call `calls + 1`, the revision is drawn in call `calls + 2`. -/
def buildNext (opts : SetupOpts) (object : ℕ) (o : Outside) : Except JsError St := do
  let iv ← checkInterval "interval" (orElse opts.interval 2000)
  let key ← toKey opts.bindkey
  let marks ← resumedMarks env key o
  let plan ← planPacket env.encoder (env.reading (o.calls + 1)) opts.advertise
    (some iv.toNat) key.isSome opts.maxServiceData
  let fast ← checkInterval "fastInterval" (orElse opts.fastInterval 100)
  pure
    { object := object
      entries := opts.advertise
      key := key
      mac := if key.isSome then macBytes env.address else []
      advCounter := marks.a
      advMark := toUint32 ((marks.a : ℤ) + ADV_STRIDE)
      writeCounter := marks.w
      writeMark := marks.w
      plan := plan
      revision := env.random (o.calls + 2) % 256
      showName := opts.showName
      packetId := 0
      rejects := fun _ => 0
      interval := iv
      fastInterval := max 100 fast
      fastTimeout := opts.fastTimeout.getD 30000
      whenConnected := opts.whenConnected
      onError := opts.onError
      timer := none
      fastTimer := none
      changeTimer := none
      advInterval := iv
      lastSd := none }

/-- `readValue` of every readable entry, in order. -/
def readValues : List Writable → Fw (List (Writable × Bytes))
  | [] => pure []
  | writable :: rest =>
      if writable.readable then do
        let value ← readValue env writable
        let values ← readValues rest
        pure ((writable, value) :: values)
      else readValues rest

/-- What `NRF.setServices` has done when it returns. -/
def World.register (values : List (Writable × Bytes)) (reportOffered : Bool) (w : World) : World :=
  { values.foldl (fun w v => w.serve v.1 v.2) w with reportOffered := reportOffered }

/-- `setup()` from where `st` is the new state and the old timers are cleared. -/
def install (opts : SetupOpts) : Fw Unit := do
  let w ← look id
  doIf w.st.key.isSome (saveMarks env)
  doIf (w.st.plan.writable ≠ []) do
    let values ← readValues env w.st.plan.writable
    ask env .setServices
    update (World.register values (opts.counterReport && w.st.key.isSome))
  always (refreshAdvertising env false) do
    schedule env
    update fun w => { w with listening := true }

/-! ## The device -/

/-- The device, before or after its first `setup()`. -/
structure Board extends Outside where
  st : Option St

def World.board (w : World) : Board := { w with st := some w.st }

def Board.world (b : Board) (st : St) : World := { b with st := st }

/-- The timers of `st` are cleared. -/
def Outside.disarm (o : Outside) (st : St) : Outside :=
  { o with
    timers := o.timers.filter fun t =>
      some t.handle ≠ st.timer ∧ some t.handle ≠ st.fastTimer ∧ some t.handle ≠ st.changeTimer }

/-- The object `st` will refer to next. -/
def Board.nextObject (b : Board) : ℕ := b.st.elim 0 (·.object + 1)

/-- The old timers are cleared, and `st = next`. -/
def Board.swap (b : Board) (next : St) : World :=
  { b.st.elim b.toOutside b.toOutside.disarm with calls := b.calls + 3, st := next }

/-- `setup(opts)`. -/
def setup (opts : SetupOpts) : EStateM JsError Board Unit := fun b =>
  match buildNext env opts b.nextObject b.toOutside with
  | .error e => .error e { b with calls := b.calls + 3 }
  | .ok next =>
      match install env opts (b.swap next) with
      | .ok _ w => .ok () w.board
      | .error e w => .error e w.board

/-- What happens to a device that has been set up. -/
inductive Event where
  | update
  | changed
  | setAdvertisingInterval (ms : ℤ)
  | setFastTimeout (ms : ℤ)
  /-- A central writes to the characteristic of entry `k`, counted from 1. -/
  | write (k : ℕ) (data : Bytes)
  | challenge (data : Bytes)
  | connect
  | disconnect
  | fire (handle : ℕ)
  | turn

/-- An armed timeout fires: it is spent, and its job runs. -/
def fire (handle : ℕ) (w : World) : World :=
  match w.timers.find? (·.handle = handle) with
  | none => w
  | some t => left (runJob env t.job) (w.clearTimeout handle)

def react (w : World) : Event → World
  | .update => left (updateNow env) w
  | .changed => left changed w
  | .setAdvertisingInterval ms => left (setAdvertisingInterval env ms) w
  | .setFastTimeout ms => left (setFastTimeout ms) w
  | .write k data => writeEvent env k data w
  | .challenge data => if w.reportOffered then left (onChallenge env data) w else w
  | .connect => if w.listening then left (guarded env (onConnect env)) w else w
  | .disconnect => if w.listening then left (guarded env goIdleAfterTimeout) w else w
  | .fire handle => fire env handle w
  | .turn => turn env w

/-- What happens to a device. -/
inductive BoardEvent where
  | setup (opts : SetupOpts)
  | on (event : Event)

namespace Board

/-- Before the first `setup()` there is nothing that could react. -/
def step (b : Board) : BoardEvent → Board
  | .setup opts => left (setup env opts) b
  | .on event =>
      match b.st with
      | none => b
      | some st => (react env (b.world st) event).board

def powerOn (file : Option MarksFile) : Board where
  calls := 0
  file := file
  timers := []
  nextTimer := 1
  deferred := []
  held := fun _ => .unset
  reportOffered := false
  report := []
  air := none
  listening := false
  sets := []
  handed := []
  returned := []
  st := none

end Board

/-! ## A device to run -/

/-- A light that is switched by writing and can be read back. -/
def sampleLight : Entry where
  type := "light"
  id := some 0x0F
  length := some 1
  variableLength := false
  signed := none
  hasSet := true
  hasGet := true
  interval := none

def sampleBattery : Entry where
  type := "battery"
  id := none
  length := none
  variableLength := false
  signed := none
  hasSet := false
  hasGet := true
  interval := none

def sampleOpts : SetupOpts where
  advertise := [sampleBattery, sampleLight]
  interval := some 1000
  fastInterval := none
  fastTimeout := none
  bindkey := none
  whenConnected := true
  showName := true
  maxServiceData := none
  counterReport := false
  onError := false

/-- The same device with a key. -/
def sampleKeyed : SetupOpts :=
  { sampleOpts with bindkey := some (.bytes (List.replicate 16 0x2B)) }

/-- Everything answers. -/
def sampleEnv : Env where
  ccm := Aead.tagging [] []
  address := "c1:11:22:33:44:55 public".toList
  probe _ _ := .ok ⟨0x01, [1]⟩
  clock _ := 0
  random _ := 0
  read _ _ := .ok ⟨0x01, [90]⟩
  set _ _ _ := .ok ()
  throws _ _ := none

/-- The device without a key, after `setup()`. -/
def plainBoard : Board :=
  Runs.run (Board.step sampleEnv) (Board.powerOn none) [.setup sampleOpts]

def plainSt : St := plainBoard.st.get (by decide)

end BTHomeWritable.Firmware
