import BTHomeWritable.Device.Seal
import BTHomeWritable.Lib.Statements
import Mathlib.Logic.Function.Basic

/-!
# The device's counters and the flash file behind them

`seal`, `openWrite` and the part of `setup` that touches a counter, statement
by statement, for a device with a bindkey.  Power can go before any statement;
`Storage.writeJSON`, the cipher, the user's callbacks and the options can throw
where the source calls them.

The state is the module variable `st` (lost with the power) and the file
`.bwctr` (kept).  Beside them runs a `Trail`, which nothing in the module reads:
the same six counters without the wrap at 2^32, moved by the same assignments.
It is what "further along" and "moved forward" mean for a counter that goes
round, and `sealed` lists the pairs handed to the cipher.
-/

namespace BTHomeWritable.Device

open Statements

/-- What can throw, by where it is called. -/
inductive Fault where
  | options
  | storage
  | aes
  | onError
  | user
  deriving DecidableEq

/-- The content of `.bwctr`: a bare number of earlier firmware, or an object. -/
inductive MarksFile where
  | number (n : ℤ)
  | object (w a : Option ℤ)
  deriving DecidableEq

structure Marks where
  w : ℕ
  a : ℕ
  deriving DecidableEq

def loadMarks : Option MarksFile → Marks
  | some (.number n) => { w := toUint32 n, a := 0 }  -- the write mark alone
  | some (.object (some w) a) => { w := toUint32 w, a := toUint32 (a.getD 0) }
  | _ => { w := 0, a := 0 }

@[simp] theorem loadMarks_object (w a : ℕ) : loadMarks (some (.object (some w) (some a))) =
    { w := w % 4294967296, a := a % 4294967296 } := by
  simp only [loadMarks, Option.getD_some, toUint32_natCast]

theorem loadMarks_lt (file : Option MarksFile) :
    (loadMarks file).w < 4294967296 ∧ (loadMarks file).a < 4294967296 := by
  unfold loadMarks
  split <;> simp [toUint32_lt]

/-- The fields of `st` that sealing, opening and refusing read or write. -/
structure St where
  key : Bytes
  mac : Bytes
  advCounter : ℕ
  advMark : ℕ
  writeCounter : ℕ
  writeMark : ℕ
  rejects : Option ErrCode → ℕ
  onError : Bool

/-- The counters and marks, unwrapped, and how many advertising counters have
been consumed or skipped. -/
structure Trail where
  adv : ℕ
  advMark : ℕ
  advFile : ℕ
  write : ℕ
  writeMark : ℕ
  writeFile : ℕ
  spent : ℕ
  deriving DecidableEq

/-- One call of `seal` that reached the cipher. -/
structure Sealing where
  info : UInt8
  counter : ℕ
  position : ℕ
  /-- The advertising mark on flash at that moment. -/
  onFlash : ℕ
  deriving DecidableEq

structure World where
  st : Option St
  file : Option MarksFile
  trail : Trail
  sealed : List Sealing

abbrev DeviceProg := Prog Fault World JsError

namespace World

/-- A device that has just been given power, before its first `setup()`. -/
def powerOn (file : Option MarksFile) : World where
  st := none
  file := file
  trail :=
    { adv := (loadMarks file).a, advMark := (loadMarks file).a, advFile := (loadMarks file).a
      write := (loadMarks file).w, writeMark := (loadMarks file).w, writeFile := (loadMarks file).w
      spent := 0 }
  sealed := []

/-- The RAM is gone. -/
def powerOff (w : World) : World := { w with st := none }

/-- `st.advCounter = (st.advCounter + 1) >>> 0`. -/
def bumpAdvCounter (w : World) : World :=
  { w with
    st := w.st.map fun st => { st with advCounter := toUint32 ((st.advCounter : ℤ) + 1) }
    trail := { w.trail with adv := w.trail.adv + 1, spent := w.trail.spent + 1 } }

/-- `st.advMark = (counter + ADV_STRIDE) >>> 0`. -/
def setAdvMark (counter : ℕ) (w : World) : World :=
  { w with
    st := w.st.map fun st => { st with advMark := toUint32 ((counter : ℤ) + ADV_STRIDE) }
    trail := { w.trail with advMark := w.trail.adv + ADV_STRIDE } }

/-- `st.writeCounter = counter`. -/
def setWriteCounter (counter : ℕ) (w : World) : World :=
  { w with
    st := w.st.map fun st => { st with writeCounter := counter }
    trail :=
      { w.trail with
        write := w.trail.write +
          w.st.elim 0 fun st => Circular.forward 0x100000000 st.writeCounter counter } }

/-- `st.writeMark = (counter + CTR_STRIDE) >>> 0`.  A mark that comes round to the number
in the file counts as the one saved. -/
def setWriteMark (counter : ℕ) (w : World) : World :=
  { w with
    st := w.st.map fun st => { st with writeMark := toUint32 ((counter : ℤ) + CTR_STRIDE) }
    trail :=
      { w.trail with
        writeMark := w.trail.write + CTR_STRIDE
        writeFile :=
          if toUint32 ((counter : ℤ) + CTR_STRIDE) = (loadMarks w.file).w then
            w.trail.write + CTR_STRIDE
          else w.trail.writeFile } }

/-- `writeJSON(CTR_FILE, { w: st.writeMark, a: st.advMark })`, when it succeeds. -/
def writeJSON (w : World) : World :=
  match w.st with
  | none => w
  | some st =>
      { w with
        file := some (.object (some st.writeMark) (some st.advMark))
        trail :=
          { w.trail with advFile := w.trail.advMark, writeFile := w.trail.writeMark } }

/-- The pair handed to the cipher by `seal`. -/
def noteSealed (info : UInt8) (counter : ℕ) (w : World) : World :=
  { w with
    sealed := w.sealed ++
      [{ info := info, counter := counter, position := w.trail.adv - 1
         onFlash := (loadMarks w.file).a }] }

/-- `st.rejects[c] = (st.rejects[c] || 0) + 1`. -/
def countReject (e : JsError) (w : World) : World :=
  { w with
    st := w.st.map fun st =>
      { st with rejects := Function.update st.rejects e.code (st.rejects e.code + 1) } }

end World

/-! ## The programs -/

/-- `st.` on a null `st`. -/
def typeError : JsError := ⟨none, "Cannot read property of null"⟩

def withSt {α : Type} (k : St → DeviceProg α) : DeviceProg α := do
  match ← Prog.read World.st with
  | some st => k st
  | none => Prog.raise typeError

def saveMarks : DeviceProg Unit :=
  Prog.call .storage ⟨none, "Storage.writeJSON"⟩ World.writeJSON

/-- Counts a refusal and reports it; the callers answer null. -/
def reject (e : JsError) : DeviceProg Unit := withSt fun st => do
  Prog.stmt (World.countReject e)
  if st.onError then Prog.call .onError ⟨none, "onError"⟩ id

def noteAdvCounter (counter : ℕ) : DeviceProg Unit := withSt fun st =>
  if reachedMark counter st.advMark ADV_STRIDE then do
    Prog.stmt (World.setAdvMark counter)
    saveMarks
  else pure ()

def noteWriteCounter (counter : ℕ) : DeviceProg Unit := withSt fun st => do
  Prog.stmt (World.setWriteCounter counter)
  if counter ≥ st.writeMark then do
    Prog.stmt (World.setWriteMark counter)
    saveMarks
  else pure ()

variable (ccm : Aead)

/-- `seal(pt, info)`. -/
def sealUnder (pt : Bytes) (info : UInt8) : DeviceProg Bytes := withSt fun st => do
  let counter := st.advCounter
  Prog.stmt World.bumpAdvCounter
  -- a throw out of the save leaves the counter drawn and nothing sealed under it
  noteAdvCounter (toUint32 ((counter : ℤ) + 1))
  Prog.stmt (World.noteSealed info counter)
  Prog.call .aes ⟨none, "AES returned nothing: no contiguous memory"⟩ id
  pure (sealedWith ccm st.key st.mac pt info counter)

/-- `openWrite(pl)`: the plaintext, or null for a write that was refused. -/
def openWrite (pl : Bytes) : DeviceProg (Option Bytes) := withSt fun st =>
  if pl.length ≤ ENC_OVERHEAD then do
    reject (err .truncated
      s!"encrypted write is {pl.length} bytes, shorter than its own framing")
    pure none
  else
    let parts := splitWrite pl
    -- before the cipher, so that a replay costs nothing to reject
    if !counterIsAhead parts.counter st.writeCounter then do
      reject (err .counterNotIncreasing
        s!"write counter {parts.counter} is not ahead of {st.writeCounter}")
      pure none
    else do
      Prog.call .aes ⟨none, "AES returned nothing: no contiguous memory"⟩ id
      match ccm.decrypt st.key (nonceFor st.mac WRITE_INFO parts.counter) parts.ct parts.mic with
      | none =>
          reject (err .micMismatch "the write did not authenticate")
          pure none
      | some pt =>
          noteWriteCounter parts.counter
          Prog.stmt id  -- the copy into `out`, after which the frame counts as accepted
          pure (some pt)

/-- What `counterCharacteristic` does with a challenge: the sealed answer it leaves to be read.
What the deferred half throws goes to `onError` and leaves no answer. -/
def counterCharacteristic (data : Bytes) : DeviceProg (Option Bytes) :=
  if data.length ≠ CHALLENGE_LEN then do
    reject (err .challengeLength
      s!"challenge is {data.length} bytes, expected {CHALLENGE_LEN}")
    pure none
  else withSt fun st => do
    let r ← sealUnder ccm (data ++ counterBytes st.writeCounter) READ_INFO
    pure (some r)

/-- What `setup()` is given, as far as the counters see it: the key, and what
`readValue` and `refreshAdvertising` will seal before it returns, in order. -/
structure SetupOpts where
  key : Bytes
  mac : Bytes
  onError : Bool
  publishes : List (Bytes × UInt8)

/-- `st = next`. -/
def World.swap (opts : SetupOpts) (marks : Marks) (w : World) : World :=
  { w with
    st := some
      { key := opts.key
        mac := opts.mac
        advCounter := marks.a
        advMark := toUint32 ((marks.a : ℤ) + ADV_STRIDE)
        writeCounter := marks.w
        writeMark := marks.w
        rejects := fun _ => 0
        onError := opts.onError }
    trail :=
      { w.trail with
        adv := w.trail.advFile
        advMark := w.trail.advFile + ADV_STRIDE
        spent := w.trail.spent + (w.trail.advFile - w.trail.adv)
        write := w.trail.writeFile
        writeMark := w.trail.writeFile } }

/-- The values and the first packet that `setup` publishes; `get()` and the
radio can throw before each. -/
def publishAll : List (Bytes × UInt8) → DeviceProg Unit
  | [] => pure ()
  | (pt, info) :: rest => do
      Prog.call .user ⟨none, "get"⟩ id
      let _ ← sealUnder ccm pt info
      publishAll rest

/-- `setup(opts)`: everything that can refuse the options stands before the
swap, and the stride is claimed before anything is sealed. -/
def setup (opts : SetupOpts) : DeviceProg Unit := do
  let marks ← Prog.read fun w : World => loadMarks w.file
  -- `toKey`, `planPacket` and `checkInterval`, none of which touches a counter
  Prog.call .options ⟨none, "setup"⟩ id
  Prog.stmt (World.swap opts marks)
  saveMarks
  publishAll ccm opts.publishes

/-! ## A device's life -/

/-- One thing that happens to a device, with the fates its statements meet. -/
inductive Event where
  | setup (opts : SetupOpts) (script : List (Fate Fault))
  | seal (pt : Bytes) (info : UInt8) (script : List (Fate Fault))
  | write (pl : Bytes) (script : List (Fate Fault))
  | powerCut

def Event.script : Event → List (Fate Fault)
  | .setup _ script => script
  | .seal _ _ script => script
  | .write _ script => script
  | .powerCut => []

/-- The world a program leaves behind; a cut takes the RAM with it. -/
def afterwards {α : Type} : Outcome Fault World JsError α → World
  | .done _ w _ => w
  | .threw _ w _ => w
  | .cut w => w.powerOff

/-- A write frame that `openWrite` accepted, with the forward movement of the
last-accepted counter up to it and including it. -/
structure Acceptance where
  frame : Bytes
  position : ℕ
  before : ℕ
  after : ℕ
  /-- The write mark on flash once the frame was accepted. -/
  onFlash : ℕ
  deriving DecidableEq

/-- A device with what its life so far has shown.  `last` is where the
last-accepted counter stands and `moved` how far it has moved forward in all,
both as they were when the device last rested. -/
structure Life where
  world : World
  last : ℕ
  moved : ℕ
  accepted : List Acceptance

namespace Life

def powerOn (file : Option MarksFile) : Life where
  world := World.powerOn file
  last := (loadMarks file).w
  moved := 0
  accepted := []

/-- The life once the device rests again in `w`. -/
def rest (l : Life) (w : World) : Life :=
  match w.st with
  | none => { l with world := w }
  | some _ =>
      { l with world := w, last := w.trail.write, moved := l.moved + (w.trail.write - l.last) }

def accept (l l' : Life) (frame : Bytes) : Life :=
  { l' with accepted := l'.accepted ++
      [{ frame := frame, position := l'.last, before := l.moved, after := l'.moved
         onFlash := (loadMarks l'.world.file).w }] }

def step (l : Life) : Event → Life
  | .setup opts script => l.rest (afterwards (setup ccm opts l.world script))
  | .seal pt info script => l.rest (afterwards (sealUnder ccm pt info l.world script))
  | .write pl script =>
      let o := openWrite ccm pl l.world script
      match o.value? with
      | some (some _) => l.accept (l.rest (afterwards o)) pl
      | _ => l.rest (afterwards o)
  | .powerCut => l.rest l.world.powerOff

end Life

/-! ## A device to run -/

def sampleOpts : SetupOpts where
  key := List.replicate 16 0x2B
  mac := [0xC1, 0x11, 0x22, 0x33, 0x44, 0x55]
  onError := false
  publishes := [([0x00, 0x01], DEV_INFO_ENC)]

def sampleCcm : Aead := Aead.tagging [] []

/-- A light switched on by a key holder under `counter`. -/
def sampleFrame (counter : ℕ) : Bytes :=
  sealedWith sampleCcm sampleOpts.key sampleOpts.mac [0x0F, 0x01] WRITE_INFO counter

end BTHomeWritable.Device
