import BTHomeWritable.Receiver.Slots
import Mathlib.Logic.Function.Basic

/-!
# The device's turn and the host's slot

`_link` of the coordinators that share one gate.  A task here is one use of
`_link`: a command, one pass of a read, the clearing of a cached table, or the
standalone counter question, which connects a second time within one link.  It
takes the lock of its device, then a slot, connects and disconnects; every await
of the way can fail or be cancelled.

What happens between two awaits may come as several steps, so the runs of this
machine include those of the code.  `links` are the connections that are open at
the Bluetooth stack.  What `establish_connection` and `disconnect` leave behind
where they do not return is the stack's affair, a `BluetoothStack`, and nothing is
assumed of it here.

The lock is `asyncio.Lock`: `wakeUpFirst` is what a release does, and `enter` and
`resumeTurn` are the two halves of `acquire`.
-/

namespace BTHomeWritable.Receiver

def SLOT_COOLDOWN : ℤ := 4

/-- What a task takes the link for. -/
inductive Work where
  | command
  | readPass
  | clearCache
  | counterQuestion (urgent : Bool)
  deriving DecidableEq

def Work.urgent : Work → Bool
  | .command => true
  | .counterQuestion urgent => urgent
  | _ => false

/-- How a call that can be awaited ends. -/
inductive CallEnd where
  | returned
  | raised
  | outOfSlots
  | cancelled
  deriving DecidableEq

/-- Whether a connection is left open by a call of the Bluetooth stack that ended so:
by an `establish_connection` that did not return, and by a `disconnect`. -/
structure BluetoothStack where
  afterConnect : CallEnd → Bool
  afterDisconnect : CallEnd → Bool

/-- Inside the block of `_link`.  `again` is the counter question's second look. -/
inductive Stage where
  | linked
  | connecting (attempt : ℕ)
  | connected (attempt : ℕ)
  | disconnecting (attempt : ℕ) (again : Bool)
  deriving DecidableEq

/-- Where a task stands: in the queue of `_device`, in `acquire` as a caller of the gate, inside
the block, or past it. -/
inductive Phase where
  | turn (future : SlotFuture) (cancelling : Bool)
  | slot (caller : ℕ)
  | inside (caller : ℕ) (stage : Stage)
  | ended
  deriving DecidableEq

structure LinkTask where
  address : String
  work : Work
  phase : Phase
  deriving DecidableEq

/-- An `asyncio.Lock`: its queue holds the tasks that have not resumed. -/
structure DeviceLock where
  locked : Bool
  waiters : List ℕ

structure Host where
  gate : Slots
  locks : String → DeviceLock
  tasks : List LinkTask
  links : List (ℕ × String)

inductive LinkAct where
  | register (address : String) (limit : ℤ)
  | withdraw (address : String)
  | pass (seconds : ℕ)
  | fire (timer : ℕ)
  | enter (address : String) (work : Work)
  | resume (task : ℕ)
  | cancel (task : ℕ)
  | standDown (task : ℕ)
  | connect (task : ℕ)
  | connectEnds (task : ℕ) (result : CallEnd)
  | exchanged (task : ℕ) (again : Bool)
  | drop (task : ℕ)
  | disconnectEnds (task : ℕ) (result : CallEnd)

namespace Host

def start (now : ℕ) : Host := ⟨Slots.start now, fun _ => ⟨false, []⟩, [], []⟩

def setPhase (s : Host) (t : ℕ) (phase : Phase) : Host :=
  { s with tasks := s.tasks.modify t fun task => { task with phase := phase } }

def setLock (s : Host) (address : String) (lock : DeviceLock) : Host :=
  { s with locks := Function.update s.locks address lock }

def phaseOf (s : Host) (t : ℕ) : Option Phase := s.tasks[t]?.map LinkTask.phase

/-! ## The lock of the device -/

/-- `_wake_up_first`: a first waiter whose future is done is set to wake up already. -/
def wakeUpFirst (s : Host) (address : String) : Host :=
  match (s.locks address).waiters with
  | [] => s
  | first :: _ =>
      match s.phaseOf first with
      | some (.turn .pending cancelling) => s.setPhase first (.turn .admitted cancelling)
      | _ => s

/-- `release` of the lock. -/
def giveTurn (s : Host) (address : String) : Host :=
  (s.setLock address { s.locks address with locked := false }).wakeUpFirst address

/-- The lock is the task's, and it goes on into `acquire` of the gate. -/
def takeTurn (s : Host) (t : ℕ) (address : String) (work : Work) : Host :=
  let s := s.setLock address { s.locks address with locked := true }
  { s with gate := s.gate.step (.acquire work.urgent) }.setPhase t (.slot s.gate.callers.length)

/-- `acquire` of the lock: straight through when it is free and everybody queued has been
cancelled, else to the end of the queue. -/
def enter (s : Host) (address : String) (work : Work) : Host :=
  let lock := s.locks address
  let t := s.tasks.length
  let s : Host := { s with tasks := s.tasks ++ [⟨address, work, .turn .pending false⟩] }
  if !lock.locked && lock.waiters.all (fun w =>
      match s.phaseOf w with
      | some (.turn .cancelled _) => true
      | _ => false)
  then s.takeTurn t address work
  else s.setLock address { lock with waiters := lock.waiters ++ [t] }

/-- A waiter of the lock resumes: out of the queue, and on with the lock or out with the
cancellation. -/
def resumeTurn (s : Host) (t : ℕ) (task : LinkTask) (granted : Bool) : Host :=
  let lock := s.locks task.address
  let s := s.setLock task.address { lock with waiters := lock.waiters.erase t }
  if granted then s.takeTurn t task.address task.work
  else
    let s := s.setPhase t .ended
    if lock.locked then s else s.wakeUpFirst task.address

/-! ## The block -/

/-- Out of `_link`: the slot is given back unless the gate has it already, then the lock. -/
def leave (s : Host) (t caller : ℕ) (address : String) : Host :=
  { s with gate := s.gate.step (.release caller) }.setPhase t .ended |>.giveTurn address

/-- A step of the gate for a task in `acquire`, and what the task makes of it. -/
def inGate (s : Host) (t caller : ℕ) (address : String) (a : SlotsAct) : Host :=
  let s : Host := { s with gate := s.gate.step a }
  match s.gate.callers[caller]? with
  | some .holding => s.setPhase t (.inside caller .linked)
  | some .gone => s.setPhase t .ended |>.giveTurn address
  | _ => s

def closeLink (s : Host) (t : ℕ) (stays : Bool) : Host :=
  if stays then s else { s with links := s.links.filter (·.1 ≠ t) }

/-- `establish_connection` is over. -/
def connectEnds (stack : BluetoothStack) (s : Host) (t caller attempt : ℕ) (address : String)
    (result : CallEnd) : Host :=
  match result with
  | .returned =>
      { s with links := s.links ++ [(t, address)] }.setPhase t (.inside caller (.connected attempt))
  | result =>
      let s : Host :=
        if stack.afterConnect result then { s with links := s.links ++ [(t, address)] } else s
      let s : Host :=
        if result = .outOfSlots then { s with gate := s.gate.step (.holdOff SLOT_COOLDOWN) }
        else s
      s.leave t caller address

/-- `disconnect` is over: the counter question may connect once more, all else leaves. -/
def disconnectEnds (stack : BluetoothStack) (s : Host) (t caller attempt : ℕ) (again : Bool)
    (address : String) (result : CallEnd) : Host :=
  let s := s.closeLink t (stack.afterDisconnect result)
  if again ∧ result = .returned then s.setPhase t (.inside caller (.connecting (attempt + 1)))
  else s.leave t caller address

/-- `Task.cancel`, met at the await the task is in. -/
def cancel (stack : BluetoothStack) (s : Host) (t : ℕ) (task : LinkTask) : Host :=
  match task.phase with
  | .turn .pending cancelling => s.setPhase t (.turn .cancelled cancelling)
  | .turn future _ => s.setPhase t (.turn future true)
  | .slot caller => s.inGate t caller task.address (.cancel caller)
  | .inside caller (.connecting attempt) =>
      connectEnds stack s t caller attempt task.address .cancelled
  | .inside caller (.connected attempt) =>
      s.setPhase t (.inside caller (.disconnecting attempt false))
  | .inside caller (.disconnecting attempt again) =>
      disconnectEnds stack s t caller attempt again task.address .cancelled
  | _ => s

/-- A step of one task. -/
def taskStep (stack : BluetoothStack) (s : Host) (t : ℕ) (task : LinkTask) : LinkAct → Host
  | .resume _ =>
      match task.phase with
      | .turn .admitted cancelling => s.resumeTurn t task !cancelling
      | .turn .cancelled _ => s.resumeTurn t task false
      | .slot caller => s.inGate t caller task.address (.resume caller)
      | _ => s
  | .cancel _ => cancel stack s t task
  | .standDown _ =>
      -- the revision was read while this pass waited for a slot
      match task.phase, task.work with
      | .inside caller .linked, .readPass => s.leave t caller task.address
      | _, _ => s
  | .connect _ =>
      match task.phase with
      | .inside caller .linked => s.setPhase t (.inside caller (.connecting 1))
      | _ => s
  | .connectEnds _ result =>
      match task.phase with
      | .inside caller (.connecting attempt) =>
          connectEnds stack s t caller attempt task.address result
      | _ => s
  | .exchanged _ again =>
      match task.phase, task.work with
      | .inside caller (.connected attempt), .counterQuestion _ =>
          s.setPhase t (.inside caller (.disconnecting attempt (again && attempt == 1)))
      | .inside caller (.connected attempt), _ =>
          s.setPhase t (.inside caller (.disconnecting attempt false))
      | _, _ => s
  | .drop _ => s.closeLink t false
  | .disconnectEnds _ result =>
      match task.phase with
      | .inside caller (.disconnecting attempt again) =>
          disconnectEnds stack s t caller attempt again task.address result
      | _ => s
  | _ => s

def step (stack : BluetoothStack) (s : Host) (a : LinkAct) : Host :=
  match a with
  | .register address limit => { s with gate := s.gate.step (.register address limit) }
  | .withdraw address => { s with gate := s.gate.step (.withdraw address) }
  | .pass seconds => { s with gate := s.gate.step (.pass seconds) }
  | .fire timer => { s with gate := s.gate.step (.fire timer) }
  | .enter address work => s.enter address work
  | .resume t | .cancel t | .standDown t | .connect t | .connectEnds t _ | .exchanged t _
  | .drop t | .disconnectEnds t _ =>
      s.tasks[t]?.elim s fun task => taskStep stack s t task a

end Host

end BTHomeWritable.Receiver
