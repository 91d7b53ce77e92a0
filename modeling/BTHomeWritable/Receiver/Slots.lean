import BTHomeWritable.Lib.Runs
import Mathlib.Data.Int.Order.Basic

/-!
# The host's connection gate

`ConnectionSlots` of `slots.py` and the requests that set its limit, as steps of
one machine.  A caller is a task inside `taken()`: asleep until the hold-off is
over, waiting for its future, or holding a slot.  What runs between two awaits
is one step, and `cancel` only asks for the cancellation: the task meets it when
it resumes, and a future that is already done stays as it is.

`register` and `withdraw` move the limit, which is the `lowest` that is asked
for.  `attempt` is the way into the gate, past the hold-off and the queues;
`admitWaiters` is `_admit`, over the two queues one after the other, and `handOn`
gives a slot back.

Times are readings of `time.monotonic()`.  A timer of `_resume_later` may fire
at any moment, since the loop's clock is coarser.  `grants` records the gate as
it was when a slot was granted; no step reads it.
-/

namespace BTHomeWritable.Receiver

def DEFAULT_MAX_CONNECTIONS : ℕ := 2

/-- The future a caller waits for: not done, `set_result(None)`, or cancelled. -/
inductive SlotFuture where
  | pending
  | admitted
  | cancelled
  deriving DecidableEq

/-- Where a caller of `taken()` stands.  `cancelling` is a cancellation asked for after the
future was done. -/
inductive Caller where
  | sleeping (urgent : Bool)
  | waiting (urgent : Bool) (future : SlotFuture) (cancelling : Bool)
  | holding
  | gone
  deriving DecidableEq

/-- The slot is this caller's, whether or not it has resumed to see it. -/
def Caller.holdsSlot : Caller → Bool
  | .waiting _ .admitted _ => true
  | .holding => true
  | _ => false

/-- The gate at the moment a slot is granted to `caller`: `limit` is what the live requests come
to. -/
structure Grant where
  inFlight : ℕ
  limit : ℕ
  now : ℤ
  heldOffUntil : ℤ
  caller : ℕ
  callers : List Caller
  deriving DecidableEq

structure Slots where
  limit : ℕ
  inFlight : ℕ
  urgent : List ℕ
  ordinary : List ℕ
  heldOffUntil : ℤ
  now : ℤ
  /-- When the pending `_resume` timers are due. -/
  timers : List ℤ
  callers : List Caller
  /-- `_asked`. -/
  asked : List (String × ℕ)
  grants : List Grant

inductive SlotsAct where
  | register (address : String) (limit : ℤ)
  | withdraw (address : String)
  | acquire (urgent : Bool)
  | resume (caller : ℕ)
  | release (caller : ℕ)
  | cancel (caller : ℕ)
  | holdOff (seconds : ℤ)
  | pass (seconds : ℕ)
  | fire (timer : ℕ)

namespace Slots

/-- The process begins: `_host = ConnectionSlots()`, nothing asked. -/
def start (now : ℕ) : Slots := ⟨DEFAULT_MAX_CONNECTIONS, 0, [], [], 0, now, [], [], [], []⟩

/-- The lowest request, or the default when there is none. -/
def lowest (asked : List (String × ℕ)) : ℕ :=
  (asked.map Prod.snd).min?.getD DEFAULT_MAX_CONNECTIONS

def holdingOff (s : Slots) : ℤ := max 0 (s.heldOffUntil - s.now)

def waiting (s : Slots) : ℕ := s.urgent.length + s.ordinary.length

/-- `_in_flight += 1`, with what becomes of the caller that gets the slot. -/
def grant (s : Slots) (caller : ℕ) (next : Caller) : Slots :=
  { s with
    inFlight := s.inFlight + 1
    callers := s.callers.set caller next
    grants := s.grants ++
      [⟨s.inFlight, lowest s.asked, s.now, s.heldOffUntil, caller, s.callers⟩] }

/-- The loop of `_admit` over one queue, and what it leaves of the queue. -/
def admitFrom (s : Slots) : List ℕ → Slots × List ℕ
  | [] => (s, [])
  | waiter :: rest =>
      if s.inFlight < s.limit then
        match s.callers[waiter]? with
        | some (.waiting urgent .pending cancelling) =>
            (s.grant waiter (.waiting urgent .admitted cancelling)).admitFrom rest
        | _ => s.admitFrom rest  -- a cancelled waiter is done and wants nothing
      else (s, waiter :: rest)

/-- `_admit`: commands first, then housekeeping, and nobody while the host is held off. -/
def admitWaiters (s : Slots) : Slots :=
  if 0 < s.holdingOff then s
  else
    let (s, urgent) := s.admitFrom s.urgent
    let (s, ordinary) := s.admitFrom s.ordinary
    { s with urgent := urgent, ordinary := ordinary }

def resize (s : Slots) (limit : ℕ) : Slots :=
  let limit := max 1 limit
  if limit = s.limit then s else { s with limit := limit }.admitWaiters

/-- `acquire` from the head of its `while` on. -/
def attempt (s : Slots) (caller : ℕ) (urgent : Bool) : Slots :=
  if 0 < s.holdingOff then { s with callers := s.callers.set caller (.sleeping urgent) }
  else if s.waiting = 0 ∧ s.inFlight < s.limit then s.grant caller .holding
  else
    let s : Slots := { s with callers := s.callers.set caller (.waiting urgent .pending false) }
    if urgent then { s with urgent := s.urgent ++ [caller] }
    else { s with ordinary := s.ordinary ++ [caller] }

/-- `_in_flight -= 1` and `_admit`, with the caller out of the gate. -/
def handOn (s : Slots) (caller : ℕ) : Slots :=
  { s with inFlight := s.inFlight - 1, callers := s.callers.set caller .gone }.admitWaiters

def resumeLater (s : Slots) (seconds : ℤ) : Slots :=
  { s with timers := s.timers ++ [s.now + seconds] }

def step (s : Slots) : SlotsAct → Slots
  | .register address limit =>
      let asked := s.asked.filter (·.1 ≠ address) ++ [(address, (max 1 limit).toNat)]
      { s with asked := asked }.resize (lowest asked)
  | .withdraw address =>
      if s.asked.any (·.1 = address) then
        let asked := s.asked.filter (·.1 ≠ address)
        { s with asked := asked }.resize (lowest asked)
      else s
  | .acquire urgent =>
      let s' : Slots := { s with callers := s.callers ++ [.sleeping urgent] }
      s'.attempt s.callers.length urgent
  | .resume i =>
      match s.callers[i]? with
      | some (.sleeping urgent) => s.attempt i urgent
      | some (.waiting _ .admitted false) => { s with callers := s.callers.set i .holding }
      -- admitted, then cancelled before resuming: the slot is handed on
      | some (.waiting _ .admitted true) => s.handOn i
      | some (.waiting urgent .cancelled _) =>
          let s : Slots := { s with callers := s.callers.set i .gone }
          if urgent then { s with urgent := s.urgent.erase i }
          else { s with ordinary := s.ordinary.erase i }
      | _ => s
  | .release i =>
      match s.callers[i]? with
      | some .holding => s.handOn i
      | _ => s
  | .cancel i =>
      match s.callers[i]? with
      | some (.sleeping _) => { s with callers := s.callers.set i .gone }
      | some (.waiting urgent .pending cancelling) =>
          { s with callers := s.callers.set i (.waiting urgent .cancelled cancelling) }
      | some (.waiting urgent future _) =>
          { s with callers := s.callers.set i (.waiting urgent future true) }
      | some .holding => s.handOn i  -- out of the block through its `finally`
      | _ => s
  | .holdOff seconds =>
      if s.now + seconds > s.heldOffUntil then
        { s with heldOffUntil := s.now + seconds }.resumeLater seconds
      else s
  | .pass seconds => { s with now := s.now + seconds }
  | .fire timer =>
      if timer < s.timers.length then
        let s : Slots := { s with timers := s.timers.eraseIdx timer }
        if 0 < s.holdingOff then s.resumeLater s.holdingOff else s.admitWaiters
      else s

end Slots

end BTHomeWritable.Receiver
