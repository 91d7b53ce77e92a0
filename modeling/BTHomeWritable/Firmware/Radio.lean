import BTHomeWritable.Device.Seal
import BTHomeWritable.Firmware.State

/-!
# Sealing, publishing and reading

The functions of the module from `seal` to `setFastTimeout`, without those a
write goes through and without `setup`.  Each is a program that may throw where
a call of it does; what it changed before stays.  `seal` is `sealUnder` here,
and `update` is `updateNow`.

Where the source has one function whose parts are argued about separately, the
parts have names: `publish` is the attempt and `publishFallback` its handler,
`refreshAdvertising` is `rebuild` and `publish`, `schedule` goes by `nextDue`, and
`tick` by `readSensors`.  A timeout and a zero-delay callback run through
`runJob` and `runDeferred`, each under `guarded` where the source guards it.
-/

namespace BTHomeWritable.Firmware

open Device Throwing

variable (env : Env)

/-! ## Errors -/

/-- `if (st.onError) st.onError(e)`. -/
def report (e : JsError) : Fw Unit := do
  let w ← look id
  doIf w.st.onError (ask env (.onError e))

/-- `guarded(fn)`. -/
def guarded (p : Fw Unit) : Fw Unit := attempt p (report env)

/-- `reject(e)`; the callers answer null. -/
def reject (e : JsError) : Fw Unit := do
  update (World.countReject · e)
  report env e

/-! ## Sealing -/

def saveMarks : Fw Unit := do
  ask env .writeMarks
  update World.writeJSON

def noteAdvCounter (counter : ℕ) : Fw Unit := do
  let w ← look id
  doIf (reachedMark counter w.st.advMark ADV_STRIDE) do
    update (World.setAdvMark · counter)
    saveMarks env

/-- `seal(pt, info)`. -/
def sealUnder (pt : Bytes) (info : UInt8) : Fw Bytes := do
  let w ← look id
  let counter := w.st.advCounter
  update World.bumpAdvCounter
  noteAdvCounter env (toUint32 ((counter : ℤ) + 1))
  ask env .encrypt
  match w.st.key with
  | none => throw typeError
  | some key => pure (sealedWith env.ccm key w.st.mac pt info counter)

/-- `[DEV_INFO_ENC].concat(seal(sd.slice(1), DEV_INFO_ENC))`. -/
def sealAdvertising (sd : Bytes) : Fw Bytes := do
  let sealed ← sealUnder env (sd.drop 1) DEV_INFO_ENC
  pure (DEV_INFO_ENC :: sealed)

/-- `sealAdvertising(sd)` when there is a key, `sd` when there is none. -/
def sealIfKeyed (sd : Bytes) : Fw Bytes := do
  let w ← look id
  if w.st.key.isSome then sealAdvertising env sd else pure sd

/-! ## Publishing -/

def advOptions (st : St) : AdvOptions where
  interval := st.advInterval
  connectable := true
  scannable := true
  discoverable := true
  whenConnected := st.whenConnected
  showName := st.showName

/-- `NRF.setAdvertising({ 0xFCD2:sd }, opts)`. -/
def setAdvertising (sd : Bytes) (opts : AdvOptions) : Fw Unit := fun w =>
  match env.throws w.calls (.setAdvertising sd opts) with
  | none => .ok () (w.asked.hand sd opts true)
  | some f => .error f.error (w.asked.hand sd opts false)

/-- What `publish` does about a packet the radio refused: the smallest valid one, without the
name, and an error in any case. -/
def publishFallback (sd : Bytes) (opts : AdvOptions) (e : JsError) : Fw Unit := do
  let w ← look id
  let small ← sealIfKeyed env [w.st.plan.info, PKT_ID, UInt8.ofNat (w.st.packetId % 256)]
  let also ← attempt
    (do
      setAdvertising env small { opts with showName := false }
      update (World.onAir · small)
      pure "")
    fun e2 => do
      -- both refused: the next rate change has to build a packet
      update World.dropLastSd
      pure s!" -- and the {small.length}-byte fallback too: {e2.message}"
  throw (err .advertisingRejected
    s!"the radio refused {sd.length} bytes of service data: {e.message}{also}")

def publish (sd : Bytes) : Fw Unit := do
  let w ← look id
  let opts := advOptions w.st
  attempt
    (do
      setAdvertising env sd opts
      update (World.onAir · sd))
    (publishFallback env sd opts)

/-- `renderServiceData` as `refreshAdvertising(cached)` calls it. -/
def render (cached : Bool) (now : ℤ) : Fw (Except JsError Bytes) := fun w =>
  let rendered := renderServiceData w.st.plan
    { pid := w.st.packetId
      source := if cached then none else some (env.reading w.calls)
      now := now
      revision := some w.st.revision }
  .ok rendered.2 (w.asked.setPlan rendered.1)

/-- The packet of `refreshAdvertising(cached)`, up to where it is handed to the radio. -/
def rebuild (cached : Bool) : Fw Bytes := do
  update World.bumpPacketId
  let now ← getTime env
  let rendered ← render env cached now
  match rendered with
  | .error x => throw x
  | .ok sd => sealIfKeyed env sd

def refreshAdvertising (cached : Bool) : Fw Unit := do
  let sd ← rebuild env cached
  publish env sd

def republishRate : Fw Unit := do
  let w ← look id
  match w.st.lastSd with
  | none => refreshAdvertising env false
  | some sd => publish env sd

/-! ## The read timer -/

/-- A reading from the future counts as one taken now. -/
def notAhead (now : ℤ) (it : Sensor) : Sensor :=
  if it.lastRead > now then { it with lastRead := now } else it

/-- When entry `it` falls due, in milliseconds from `now`. -/
def dueIn (now interval : ℤ) (it : Sensor) : ℤ :=
  it.lastRead + (if it.readInterval = 0 then interval else (it.readInterval : ℤ)) - now

/-- `nextDue(now)`: the sensors it leaves and what it returns. -/
def nextDue (now interval : ℤ) : List Sensor → List Sensor × Option ℤ
  | [] => ([], none)
  | it :: rest =>
      let it := notAhead now it
      let (rest, wait) := nextDue now interval rest
      (it :: rest, some (wait.elim (dueIn now interval it) (min (dueIn now interval it))))

/-- `nextDue` as `schedule` calls it. -/
def settleDue (now : ℤ) : Fw (Option ℤ) := fun w =>
  let due := nextDue now w.st.interval w.st.plan.ordered
  .ok due.2 (w.setOrdered due.1)

def schedule : Fw Unit := do
  update World.clearTimer
  let now ← getTime env
  let wait ← settleDue now
  match wait with
  | none => pure ()
  | some wait => update (World.setTimer · (max wait 0 + READ_SLACK))

/-- `readDue` as `tick` calls it. -/
def readPass (now : ℤ) : Fw (Except JsError Bool) := fun w =>
  let due := readDue (env.reading w.calls) now w.st.plan.ordered
  .ok due.2 (w.asked.setOrdered due.1)

def readSensors : Fw Bool := do
  let now ← getTime env
  let moved ← readPass env now
  match moved with
  | .error x => throw x
  | .ok moved => pure moved

def tick : Fw Bool := do
  let moved ← readSensors env
  doIf moved (refreshAdvertising env true)
  schedule env
  update World.noteReturn
  pure moved

def wake : Fw Unit :=
  attempt (do let _ ← tick env) fun e => do
    report env e
    -- the timeout that called this is spent, and `schedule` did not run
    update fun w => w.setTimer (w.st.interval + READ_SLACK)

/-! ## Readable values -/

/-- `readValue(w)`. -/
def readValue (writable : Writable) : Fw Bytes := do
  let w ← look id
  match w.st.entries[writable.entryIndex]? with
  | none => throw typeError
  | some e =>
      if !e.hasGet then throw typeError
      else do
        update World.asked
        match env.reading w.calls writable.entryIndex with
        | .error x => throw x
        | .ok o =>
            -- an entry declared by id hands over the bytes of its value alone
            let obj := (if e.id.isSome then writable.spec.id else o.id) :: o.value
            if w.st.key.isSome then sealUnder env obj READ_INFO else pure obj

def publishRead (writable : Writable) : Fw Unit := do
  let value ← readValue env writable
  ask env .updateServices
  update (World.serve · writable value)

/-- The deferred half of `counterCharacteristic`. -/
def counterReport (challenge : Bytes) : Fw Unit :=
  attempt
    (do
      let w ← look id
      let sealed ← sealUnder env (challenge ++ counterBytes w.st.writeCounter) READ_INFO
      ask env .updateServices
      update fun w => { w with report := sealed })
    fun e => report env (err .counterReportFailed e.message)

/-- A write to the counter characteristic. -/
def onChallenge (data : Bytes) : Fw Unit :=
  if data.length ≠ CHALLENGE_LEN then
    reject env (err .challengeLength
      s!"challenge is {data.length} bytes, expected {CHALLENGE_LEN}")
  else update (World.defer · (.counterReport data))

/-! ## Rates -/

def goFast : Fw Bool := do
  update World.clearFastTimer
  let w ← look id
  if w.st.advInterval = w.st.fastInterval then pure false
  else do
    update (World.setAdvInterval · w.st.fastInterval)
    pure true

def onConnect : Fw Unit := do
  let faster ← goFast
  doIf faster (republishRate env)

def goIdleAfterTimeout : Fw Unit := do
  update World.clearFastTimer
  update World.setFastTimer

/-- What the timeout of `goIdleAfterTimeout` calls. -/
def goIdle : Fw Unit := do
  update fun w => { w with st := { w.st with fastTimer := none, advInterval := w.st.interval } }
  republishRate env

def checkInterval (option : String) (v : ℤ) : Except JsError ℤ :=
  if v < 20 ∨ 10000 < v then
    .error (err .intervalOutOfRange s!"{option} is {v}ms; the radio accepts 20 to 10000")
  else .ok v

/-- An entry without an interval of its own follows that of the device. -/
def inheritInterval (entries : List Entry) (v : ℤ) (it : Sensor) : Sensor :=
  if ((entries[it.entryIndex]?).bind (·.interval)).isNone then
    { it with readInterval := v.toNat }
  else it

def setAdvertisingInterval (ms : ℤ) : Fw ℤ :=
  match checkInterval "interval" ms with
  | .error x => throw x
  | .ok v => do
      update fun w => { w with st := { w.st with interval := v } }
      update fun w => w.setOrdered (w.st.plan.ordered.map (inheritInterval w.st.entries v))
      schedule env
      let w ← look id
      doIf (w.st.fastTimer = none ∧ w.st.advInterval ≠ w.st.interval) do
        update (World.setAdvInterval · w.st.interval)
        republishRate env
      pure v

def setFastTimeout (ms : ℤ) : Fw ℤ :=
  if ms < 0 then throw (err .fastTimeoutNegative s!"fastTimeout is {ms}ms")
  else do
    update fun w => { w with st := { w.st with fastTimeout := ms } }
    pure ms

/-! ## Changes -/

/-- `ord[i].lastRead = 0` for every entry. -/
def forgetReads (ordered : List Sensor) : List Sensor :=
  ordered.map fun it => { it with lastRead := 0 }

/-- `update()`. -/
def updateNow : Fw Unit := do
  update fun w => w.setOrdered (forgetReads w.st.plan.ordered)
  refreshAdvertising env false
  schedule env
  update World.noteReturn

/-- `publishRead` of every readable entry. -/
def publishReads : List Writable → Fw Unit
  | [] => pure ()
  | writable :: rest => do
      doIf writable.readable (publishRead env writable)
      publishReads rest

def publishChange : Fw Unit := do
  update fun w => { w with st := { w.st with changeTimer := none } }
  update World.bumpRevision
  let w ← look id
  publishReads env w.st.plan.writable
  refreshAdvertising env false
  schedule env
  update World.noteReturn

def changed : Fw Unit := do
  let w ← look id
  if !w.st.plan.settingsRevision then
    throw (err .notReadable "no writable entry has get(); nothing for a receiver to re-read")
  else if w.st.changeTimer.isSome then pure ()
  else update World.setChangeTimer

/-! ## Callbacks -/

/-- What a timeout does when it fires. -/
def runJob : Job → Fw Unit
  | .wake => wake env
  | .goIdle => goIdle env
  | .publishChange => guarded env (publishChange env)

/-- What a zero-delay callback does when its turn comes. -/
def runDeferred : Deferred → Fw Unit
  | .publishRead writable => guarded env (publishRead env writable)
  | .counterReport challenge => counterReport env challenge

end BTHomeWritable.Firmware
