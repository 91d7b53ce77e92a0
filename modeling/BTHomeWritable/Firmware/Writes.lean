import BTHomeWritable.Firmware.Radio

/-!
# Writes

What happens to the bytes a central writes to the characteristic of an entry.
`onWrite` takes them first: with a key they go through `openWrite`, which may
refuse them before `handleWrite` is reached.  `handleWrite` finds the entry,
parses the object (`parseWrite`), decodes it for `set()` (`decodeValue`) and
calls it (`applyWrite`); the `reaction` to a write that was taken goes fast and
publishes.

After `onWrite` has returned or thrown, the stack stores the bytes into the
characteristic's value (`writeEvent`), and only then do the callbacks run that the
write has left pending (`turn`).
-/

namespace BTHomeWritable.Firmware

open Device Throwing

/-! ## One object -/

/-- How many value bytes the object of a write has to have. -/
def bytesNeeded (value : Bytes) (spec : WritableSpec) : ℕ :=
  if spec.variableLength then 1 + (value.headD 0).toNat else spec.length.getD 0

/-- `parseWrite(pl, w)`: the value bytes of the one object a write carries. -/
def parseWrite (pl : Bytes) (w : Writable) : Except JsError Bytes :=
  match pl with
  | [] => .error (err .truncated "empty write")
  | id :: value =>
      if id ≠ w.spec.id then
        .error (err .objectidMismatch
          (s!"object 0x{hex id.toNat} written to entry {w.entry}, " ++
            s!"expected 0x{hex w.spec.id.toNat}"))
      else if w.spec.variableLength && value.isEmpty then
        .error (err .truncated "missing length byte")
      else
        let n := bytesNeeded value w.spec
        if value.length < n then
          .error (err .truncated s!"object needs {n} value bytes, write has {value.length}")
        else if n < value.length then
          .error (err .trailingBytes s!"{value.length - n} unexpected trailing bytes")
        else .ok value

/-- `decodeValue(value, w)`. -/
def decodeValue (value : Bytes) (spec : WritableSpec) : Value :=
  match spec.codec with
  | .text => .text ((value.drop 1).map fun b => Char.ofNat b.toNat)
  | .binary => .boolean (value.head? ≠ some 0)
  | .event =>
      match value with
      | [b] => .code b
      | _ => .bytes value
  | .number scale signed =>
      let raw := readUint value 0 value.length
      let full := 256 ^ value.length
      .number (if signed && decide (full ≤ 2 * raw) then (raw : ℤ) - full else raw) scale
  | .bytes => .bytes value

/-! ## The write path -/

variable (env : Env)

def noteWriteCounter (counter : ℕ) : Fw Unit := do
  let w ← look id
  update (World.setWriteCounter · counter)
  doIf (counter ≥ w.st.writeMark) do
    update (World.setWriteMark · counter)
    saveMarks env

/-- `openWrite(pl)`: the plaintext, or null for a write that was refused. -/
def openWrite (pl : Bytes) : Fw (Option Bytes) := do
  let w ← look id
  if pl.length ≤ ENC_OVERHEAD then do
    reject env (err .truncated
      s!"encrypted write is {pl.length} bytes, shorter than its own framing")
    pure none
  else
    let parts := splitWrite pl
    -- before the cipher, so that a replay costs nothing to reject
    if !counterIsAhead parts.counter w.st.writeCounter then do
      reject env (err .counterNotIncreasing
        s!"write counter {parts.counter} is not ahead of {w.st.writeCounter}")
      pure none
    else do
      ask env .decrypt
      match env.ccm.decrypt (w.st.key.getD []) (nonceFor w.st.mac WRITE_INFO parts.counter)
          parts.ct parts.mic with
      | none => do
          reject env (err .micMismatch "the write did not authenticate")
          pure none
      | some pt => do
          noteWriteCounter env parts.counter
          pure (some pt)

/-- `set(v)` of entry `i`, inside the `try` of `handleWrite`: what `refused` is afterwards. -/
def callSet (i : ℕ) (v : Value) : Fw (Option JsError) := fun w =>
  match env.set w.calls i v with
  | .ok () => .ok none (w.asked.noteSet i v true)
  -- of a falsy value nothing shows in `refused`
  | .error thrown => .ok (thrown.map Foreign.error) (w.asked.noteSet i v false)

/-- Parsed and applied as one step. -/
def applyWrite (writable : Writable) (pl : Bytes) : Fw (Option JsError) := do
  let w ← look id
  match w.st.entries[writable.entryIndex]? with
  | none => pure (some typeError)
  | some _ =>
      match parseWrite pl writable with
      | .error e => pure (some e)
      | .ok value => callSet env writable.entryIndex (decodeValue value writable.spec)

/-- What follows an accepted write: one advertisement at most. -/
def reaction : Fw Unit := do
  let faster ← goFast
  let moved ← tick env
  doIf (!moved && faster) (republishRate env)

def handleWrite (k : ℕ) (pl : Bytes) : Fw Unit := do
  let w ← look id
  match w.st.plan.writable[k - 1]? with
  | none => reject env (err .entryNotDeclared s!"entry {k} is not declared")
  | some writable => do
      let refused ← applyWrite env writable pl
      -- deferred, because the stack stores the central's bytes after this returns
      doIf writable.readable (update (World.defer · (.publishRead writable)))
      match refused with
      | some e => reject env e
      | none => guarded env (reaction env)

/-- The `onWrite` of entry `k`. -/
def onWrite (k : ℕ) (data : Bytes) : Fw Unit := do
  let w ← look id
  if w.st.key.isSome then do
    let opened ← openWrite env data
    match opened with
    | none => pure ()
    | some pl => handleWrite env k pl
  else handleWrite env k data

/-- What the stack does once `onWrite` is over. -/
def World.store (k : ℕ) (data : Bytes) (w : World) : World :=
  { w with held := Function.update w.held k (.written data) }

/-- A write event: `onWrite`, then the stack's own copy. -/
def writeEvent (k : ℕ) (data : Bytes) (w : World) : World :=
  (left (onWrite env k data) w).store k data

/-! ## Turns of the event loop -/

/-- Callbacks run one after the other; what one throws ends only that one. -/
def runAll : List Deferred → World → World
  | [], w => w
  | d :: rest, w => runAll rest (left (runDeferred env d) w)

/-- The pending zero-delay callbacks run. -/
def turn (w : World) : World := runAll env w.deferred { w with deferred := [] }

end BTHomeWritable.Firmware
