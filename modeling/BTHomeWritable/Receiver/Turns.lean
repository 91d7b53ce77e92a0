import BTHomeWritable.Lib.Runs
import BTHomeWritable.Receiver.Cache

/-!
# The cache, one connection at a time

The cache and `_link` of its device: who is inside, and which steps of the cache
belong to whom.  A queued read and a command not yet inside wait in `_device` or
for a slot of the host, where nothing raises; a command that has ended is inside
until its `disconnect` is over.  Others who take the link leave the cache alone.

`allows` says who may take a step of the cache, and `insideAfter` who is inside when
it is over; a step that is not allowed leaves everything as it is.

`sent` is what was known of a command's entry when its write went out.  The other
records are for the revisions: which of them a command has read, and which have
been advertised since the one that is marked, or that the read loop or the read
of a command set out for, was fixed.  No step of the code reads them.
-/

namespace BTHomeWritable.Receiver

/-- Who can be inside `_link`: a pass of a read loop, a command, or the clearing of a cached table
and the counter question. -/
inductive Visitor where
  | reader (i : ℕ)
  | writer (i : ℕ)
  | other
  deriving DecidableEq

structure Turns where
  cache : Cache
  inside : Option Visitor
  sent : Option (Option Bytes)
  /-- The revisions that commands have read on their connections. -/
  carried : List ℕ
  /-- A command's read has been marked since the loop fixed its target. -/
  overtaken : Bool
  sinceMark : List ℕ
  sinceLoop : List ℕ
  sinceCarry : List ℕ

inductive TurnAct where
  | act (a : CacheAct)
  | enter (writer : ℕ)
  | send (writer : ℕ)
  | leave (writer : ℕ)
  | enterOther
  | leaveOther

/-! ## Where a task stands -/

def Reader.alive : Reader → Bool
  | .gone => false
  | _ => true

/-- Inside `_link`. -/
def Reader.inside : Reader → Bool
  | .connecting _ _ | .reading _ _ _ _ | .closing _ _ _ => true
  | _ => false

/-- From the return of `_connect` to the return of `disconnect`. -/
def Reader.connected : Reader → Bool
  | .reading _ _ _ _ | .closing _ _ _ => true
  | _ => false

/-- The connection is not being given back yet. -/
def Reader.inUse : Reader → Bool
  | .reading _ _ _ _ => true
  | _ => false

def Reader.capture : Reader → Option Capture
  | .queued c _ | .connecting c _ | .reading c _ _ _ | .closing c _ _ => some c
  | .gone => none

def Writer.answered : Writer → Bool
  | .acknowledged _ _ | .folding _ _ _ _ => true
  | _ => false

def Writer.carries : Writer → Bool
  | .folding _ _ _ _ => true
  | _ => false

/-- What a read loop marks: it stands down, or it has read the device in full. -/
def Cache.loopMarks (s : Cache) : CacheAct → Option Capture
  | .link i _ =>
      match s.readers[i]? with
      | some (.queued c _) => if s.revisionIsRead then some c else none
      | _ => none
  | .closed i false _ =>
      match s.readers[i]? with
      | some (.closing c _ (.returned true)) => some c
      | _ => none
  | _ => none

/-- What the read of a command marks. -/
def Cache.carryMarks (s : Cache) : CacheAct → Option Capture
  | .carried i =>
      match s.writers[i]? with
      | some (.folding c _ [] false) => some c
      | _ => none
  | _ => none

namespace Turns

def start (remembered : Option (Bytes × Option ℕ)) (readable : ℕ → Bool) : Turns where
  cache := .start remembered readable
  inside := none
  sent := none
  carried := []
  overtaken := false
  sinceMark := []
  sinceLoop := []
  sinceCarry := []

def LoopAlive (s : Turns) (i : ℕ) : Prop := ∃ r, s.cache.readers[i]? = some r ∧ r.alive = true

/-- A read folded into a command is running. -/
def Carrying (s : Turns) (i : ℕ) : Prop := ∃ w, s.cache.writers[i]? = some w ∧ w.carries = true

/-! ## Steps -/

/-- Whether an action of the cache can be taken now.  No task is cancelled. -/
def allows (s : Turns) : CacheAct → Bool
  | .advertise _ _ _ _ | .request _ | .pass _ | .command _ _ _ => true
  | .link _ _ => s.inside.isNone
  | .connected i | .read i _ | .walked i | .closed i _ _ | .failRead i =>
      s.inside = some (.reader i)
  | .acknowledge i => s.inside = some (.writer i) && s.sent.isSome
  | .confirm i _ _ | .carry i _ | .carried i | .failWrite i => s.inside = some (.writer i)
  | .cancelWrite _ | .cancelRead _ => false

/-- Who is inside after an action that leaves the cache as `after`. -/
def insideAfter (s : Turns) (after : Cache) : CacheAct → Option Visitor
  | .link i _ | .connected i | .read i _ | .walked i | .closed i _ _ | .failRead i =>
      if (after.readers[i]?.map Reader.inside).getD false then some (.reader i) else none
  | _ => s.inside

/-- The read loop fixes its target, should one be running. -/
def aim (s : Turns) (after : Cache) : Turns :=
  { s with sinceLoop := after.revisionAdvertised.toList, overtaken := false }

/-- The records after an action that leaves the cache as `after`. -/
def record (s : Turns) (after : Cache) (a : CacheAct) : Turns :=
  match a with
  | .advertise _ revision _ _ =>
      let heard : Turns := { s with
        sinceMark := s.sinceMark ++ revision.toList
        sinceLoop := s.sinceLoop ++ revision.toList
        sinceCarry := s.sinceCarry ++ revision.toList }
      if s.cache.reading then heard else heard.aim after
  | .request _ => if s.cache.reading then s else s.aim after
  | .confirm i _ _ =>
      match s.cache.writers[i]? with
      | some (.acknowledged _ _) => { s with sinceCarry := s.cache.revisionAdvertised.toList }
      | _ => s
  | a =>
      match s.cache.loopMarks a, s.cache.carryMarks a with
      | some _, _ => { s with sinceMark := s.sinceLoop }.aim after
      | none, some c =>
          { s with
            sinceMark := s.sinceCarry
            carried := s.carried ++ c.target.toList
            overtaken := true }
      | none, none => s

variable (env : Opening)

/-- An action of the cache. -/
def take (s : Turns) (a : CacheAct) : Turns :=
  let after := s.cache.step env a
  { s.record after a with cache := after, inside := s.insideAfter after a }

def step (s : Turns) : TurnAct → Turns
  | .act a => if s.allows a then s.take env a else s
  | .enter i =>
      match s.inside, s.cache.writers[i]? with
      | none, some (.begun _) => { s with inside := some (.writer i), sent := none }
      | _, _ => s
  | .send i =>
      if s.inside = some (.writer i) ∧ s.sent = none then
        match s.cache.writers[i]? with
        | some (.begun o) => { s with sent := some (s.cache.valueOf o.number) }
        | _ => s
      else s
  | .leave i =>
      match s.cache.writers[i]? with
      | some .gone => if s.inside = some (.writer i) then { s with inside := none } else s
      | _ => s
  | .enterOther => if s.inside.isNone then { s with inside := some .other } else s
  | .leaveOther => if s.inside = some .other then { s with inside := none } else s

end Turns

end BTHomeWritable.Receiver
