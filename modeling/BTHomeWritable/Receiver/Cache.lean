import BTHomeWritable.Receiver.Frames
import Mathlib.Logic.Function.Basic

/-!
# The values a coordinator holds

`_values` and what moves it: advertisements that change the layout, the tail of
`_write_now` from the moment its entry is looked up, the read loop with its two
passes, and the read that a command carries.  Every await is a place between two
steps.  Nothing here asks for one connection at a time, so the runs of this
machine include those of the code.

A `Reader` is a read loop and stands at one of its awaits; a `Writer` is a command,
with the read it may carry.  Both fix what they go by before they wait: the
declaration and the revision (`Capture`), or the entry and the value known of it
(`Order`).

A held value remembers its sources: for which object it was written or decoded,
how many layout changes had been seen by then, whether a command settled it, and
which revisions the present layout had shown.  `layouts`, `seen`, `markedIn` and
`readable` are such records too; no step of the code reads them.
-/

namespace BTHomeWritable.Receiver

def READ_RETRY : ℤ := 10
def CONFIRM_WRITES_BY_READING_BACK : Bool := true
def FOLD_A_DUE_READ_INTO_A_WRITE : Bool := true

/-- What opening a read takes: `bthome-ble`'s table, the `kind` that `describe` makes of an object
id, AES-CCM, the address, and the key of the device. -/
structure Opening where
  table : ObjectTable
  describe : UInt8 → Option String
  aead : Aead
  address : List Char
  bindkey : Option Bytes

/-- How a held value was got. -/
structure Source where
  objectId : UInt8
  layouts : ℕ
  settled : Bool
  seen : List ℕ
  deriving DecidableEq

structure Held where
  value : Bytes
  sources : List Source
  deriving DecidableEq

/-- What the connection shows of one entry: the characteristic is not in the table, or it is there
without `read`, or the read answers; or something raises. -/
inductive Look where
  | absent
  | writeOnly
  | answer (raw : Bytes)
  | raised

/-- What a read captures before its first await. -/
structure Capture where
  target : Option ℕ
  declaration : Declaration
  layouts : ℕ

/-- How `_read_pass` ends inside its connection: `_read_entries` returned, raised `StaleTable`, or
raised something else. -/
inductive PassEnd where
  | returned (all : Bool)
  | staleTable
  | raised
  deriving DecidableEq

/-- A task of `_read_loop`: in the queue of `_link`, in `_connect`, at its entries, or in
`disconnect`. -/
inductive Reader where
  | queued (c : Capture) (attempt : ℕ)
  | connecting (c : Capture) (attempt : ℕ)
  | reading (c : Capture) (attempt : ℕ) (rest : List WritableEntry) (failed : Bool)
  | closing (c : Capture) (attempt : ℕ) (result : PassEnd)
  | gone

/-- What `_write_now` holds across its awaits. -/
structure Order where
  number : ℕ
  value : Bytes
  coalesce : Bool
  entry : WritableEntry
  previous : Option Bytes

/-- A `_write_now`: before the acknowledgement, after it, or carrying a read. -/
inductive Writer where
  | begun (o : Order)
  | acknowledged (o : Order) (layouts : ℕ)
  | folding (c : Capture) (wasReading : Bool) (rest : List WritableEntry) (failed : Bool)
  | gone

structure Cache where
  declaration : Option Declaration
  values : ℕ → Option Held
  revisionAdvertised : Option ℕ
  revisionRead : Option ℕ
  readFailedAt : Option ℤ
  reading : Bool
  readConnected : Bool
  now : ℤ
  readers : List Reader
  writers : List Writer
  /-- How often a layout has been seen that was not the known one. -/
  layouts : ℕ
  /-- The revisions that have been the advertised one since then. -/
  seen : List ℕ
  /-- `layouts` as it was when the revision was marked read. -/
  markedIn : ℕ
  /-- Which entries of the present layout the device lets be read. -/
  readable : ℕ → Bool

/-- `reachable`: `async_ble_device_from_address` finds the device, should a read ask. -/
inductive CacheAct where
  | advertise (layout : Bytes) (revision : Option ℕ) (readable : ℕ → Bool) (reachable : Bool)
  | request (reachable : Bool)
  | pass (seconds : ℕ)
  | command (number : ℕ) (value : Bytes) (coalesce : Bool)
  | acknowledge (writer : ℕ)
  | confirm (writer : ℕ) (look : Look) (raises : Bool)
  | carry (writer : ℕ) (look : Look)
  | carried (writer : ℕ)
  | failWrite (writer : ℕ)
  | cancelWrite (writer : ℕ)
  | link (reader : ℕ) (reachable : Bool)
  | connected (reader : ℕ)
  | read (reader : ℕ) (look : Look)
  | walked (reader : ℕ)
  | closed (reader : ℕ) (raises : Bool) (reachable : Bool)
  | failRead (reader : ℕ)
  | cancelRead (reader : ℕ)

/-! ## Entries -/

def Declaration.layout (d : Declaration) : Bytes := d.entries.map WritableEntry.objectId

def WritableEntry.offered (describe : UInt8 → Option String) (e : WritableEntry) : Bool :=
  if e.objectId ∈ FORBIDDEN_ENTRIES then false
  else
    match describe e.objectId with
    | none => false
    | some kind => kind ≠ "meta"

def Declaration.offered (describe : UInt8 → Option String) (d : Declaration) :
    List WritableEntry :=
  d.entries.filter (WritableEntry.offered describe)

/-- `_open_read`: none is a read that cannot be used. -/
def Opening.openRead (env : Opening) (entry : WritableEntry) (raw : Bytes) :
    Except ReadError (Option Bytes) :=
  let plaintext : Except ReadError (Option Bytes) :=
    match env.bindkey with
    | none => .ok (some raw)
    | some bindkey =>
        match Receiver.openRead env.aead raw bindkey env.address with
        | .error (.protocolError _) => .ok none
        | .error e => .error (.other e)
        | .ok plaintext => .ok plaintext
  match plaintext with
  | .error e => .error e
  | .ok none => .ok none
  | .ok (some plaintext) =>
      match decodeObject env.table entry plaintext with
      | .error (.other (.protocolError _)) => .ok none
      | .error e => .error e
      | .ok value => .ok (some value)

namespace Cache

/-- A coordinator with a declaration remembered or not. -/
def start (remembered : Option (Bytes × Option ℕ)) (readable : ℕ → Bool) : Cache where
  declaration := remembered.map fun r => ⟨entriesFrom 1 r.1, r.2⟩
  values := fun _ => none
  revisionAdvertised := none
  revisionRead := none
  readFailedAt := none
  reading := false
  readConnected := false
  now := 0
  readers := []
  writers := []
  layouts := 0
  seen := []
  markedIn := 0
  readable := readable

/-- `entry` of the coordinator. -/
def entry (s : Cache) (number : ℕ) : Option WritableEntry :=
  match s.declaration with
  | none => none
  | some declaration =>
      if 1 ≤ number ∧ number ≤ declaration.entries.length then
        declaration.entries[number - 1]?
      else none

/-- What entry `number` is declared as. -/
def declared (s : Cache) (number : ℕ) : Option UInt8 := (s.entry number).map WritableEntry.objectId

def valueOf (s : Cache) (number : ℕ) : Option Bytes := (s.values number).map Held.value

/-- `_values[number] = value`.  Bytes that are there already have one source more. -/
def keep (s : Cache) (number : ℕ) (value : Bytes) (source : Source) : Cache :=
  let before := match s.values number with
    | some held => if held.value = value then held.sources else []
    | none => []
  { s with values := Function.update s.values number (some ⟨value, before ++ [source]⟩) }

/-- A value decoded at this moment. -/
def nowRead (s : Cache) (objectId : UInt8) : Source := ⟨objectId, s.layouts, false, s.seen⟩

def revisionIsRead (s : Cache) : Bool :=
  s.revisionAdvertised.isSome && s.revisionAdvertised = s.revisionRead

def readIsDue (s : Cache) : Bool :=
  if s.declaration.isNone || s.readConnected then false
  else if s.revisionAdvertised.isNone then false
  else s.revisionAdvertised ≠ s.revisionRead

variable (env : Opening)

/-- One entry of `_read_entries`: the cache and, unless the walk ends here, whether the entry
could not be used. -/
def readEntry (s : Cache) (e : WritableEntry) : Look → Cache × Except PassEnd Bool
  | .absent => (s, .error .staleTable)
  | .writeOnly => (s, .ok false)
  | .raised => (s, .error .raised)
  | .answer raw =>
      match env.openRead e raw with
      | .error (.staleEntry _) => (s, .error .staleTable)
      | .error (.other _) => (s, .error .raised)
      | .ok none => (s, .ok true)
      | .ok (some value) => (s.keep e.entry value (s.nowRead e.objectId), .ok false)

/-! ## The read loop -/

def setReader (s : Cache) (i : ℕ) (r : Reader) : Cache := { s with readers := s.readers.set i r }

/-- The revision is marked read, by a read begun after so many layout changes. -/
def mark (s : Cache) (target : Option ℕ) (layouts : ℕ) : Cache :=
  { s with revisionRead := target, readFailedAt := none, markedIn := layouts }

/-- `_read_loop` after a read that was not made in full. -/
def loopFailed (s : Cache) (i : ℕ) : Cache :=
  { s with readFailedAt := some s.now, reading := false }.setReader i .gone

/-- The loop from its head to the first await of `async_read_all`. -/
def loopHead (s : Cache) (i : ℕ) (reachable : Bool) : Cache :=
  match s.declaration with
  | none => s.loopFailed i
  | some declaration =>
      let c : Capture := ⟨s.revisionAdvertised, declaration, s.layouts⟩
      if s.revisionIsRead then
        -- what is marked is the revision that is marked already
        { s with readFailedAt := none, reading := false }.setReader i .gone
      else if !reachable then s.loopFailed i
      else s.setReader i (.queued c 1)

/-- `async_read_all` returned True. -/
def loopDone (s : Cache) (i : ℕ) (target : Option ℕ) (layouts : ℕ) (reachable : Bool) : Cache :=
  let s := s.mark target layouts
  if s.revisionAdvertised = s.revisionRead then { s with reading := false }.setReader i .gone
  else s.loopHead i reachable

def requestRead (s : Cache) (reachable : Bool) : Cache :=
  if s.reading then s
  else
    let task : Cache := { s with reading := true, readers := s.readers ++ [.gone] }
    task.loopHead s.readers.length reachable

def readerStep (s : Cache) (i : ℕ) (r : Reader) : CacheAct → Cache
  | .link _ reachable =>
      match r with
      | .queued c attempt =>
          -- asked again on this side of the wait
          if s.revisionIsRead then s.loopDone i c.target s.markedIn reachable
          else s.setReader i (.connecting c attempt)
      | _ => s
  | .connected _ =>
      match r with
      | .connecting c attempt =>
          { s with readConnected := true }.setReader i
            (.reading c attempt (c.declaration.offered env.describe) false)
      | _ => s
  | .read _ look =>
      match r with
      | .reading c attempt (e :: rest) failed =>
          match s.readEntry env e look with
          | (s, .ok refused) => s.setReader i (.reading c attempt rest (failed || refused))
          | (s, .error result) =>
              { s with readConnected := false }.setReader i (.closing c attempt result)
      | _ => s
  | .walked _ =>
      match r with
      | .reading c attempt [] failed =>
          { s with readConnected := false }.setReader i (.closing c attempt (.returned !failed))
      | _ => s
  | .closed _ raises reachable =>
      match r with
      | .closing c attempt result =>
          if raises then s.loopFailed i
          else
            match result with
            | .returned true => s.loopDone i c.target c.layouts reachable
            | .staleTable => if attempt = 1 then s.setReader i (.queued c 2) else s.loopFailed i
            | _ => s.loopFailed i
      | _ => s
  | .failRead _ =>
      match r with
      | .queued _ _ | .connecting _ _ => s.loopFailed i
      | _ => s
  | .cancelRead _ =>
      match r with
      | .gone => s
      | .reading _ _ _ _ => { s with reading := false, readConnected := false }.setReader i .gone
      | _ => { s with reading := false }.setReader i .gone
  | _ => s

/-! ## Commands -/

def setWriter (s : Cache) (i : ℕ) (w : Writer) : Cache := { s with writers := s.writers.set i w }

/-- What `_settle_written_value` keeps: the device's answer, or, where there is none or nothing
moved, what was written (`AN_UNCHANGED_ENTRY_FAILS_THE_WRITE` is False). -/
def settled (o : Order) (reported : Option Bytes) : Option Bytes :=
  match reported with
  | none => none
  | some answer =>
      if answer ≠ o.value ∧ o.coalesce then
        if reported = o.previous then none else some answer
      else some answer

/-- `_settle_written_value`, for a command acknowledged after so many layout changes. -/
def settleWrittenValue (s : Cache) (o : Order) (layouts : ℕ) (reported : Option Bytes) : Cache :=
  if o.coalesce then
    match settled o reported with
    | none => s.keep o.number o.value ⟨o.entry.objectId, layouts, true, s.seen⟩
    | some answer => s.keep o.number answer ⟨o.entry.objectId, s.layouts, true, s.seen⟩
  else s

/-- `_read_due_here` up to its first await. -/
def carryRead (s : Cache) (i : ℕ) (skip : Option ℕ) : Cache :=
  match s.declaration with
  | none => s.setWriter i .gone
  | some declaration =>
      { s with reading := true, readConnected := true }.setWriter i
        (.folding ⟨s.revisionAdvertised, declaration, s.layouts⟩ s.reading
          ((declaration.offered env.describe).filter fun e => some e.entry ≠ skip) false)

/-- `_read_due_here` on its way out, with `done`. -/
def carryEnds (s : Cache) (i : ℕ) (c : Capture) (wasReading done : Bool) : Cache :=
  let s := { s with readConnected := false, reading := wasReading }.setWriter i .gone
  if done then s.mark c.target c.layouts else { s with readFailedAt := some s.now }

/-- `_read_back`; none is an exception. -/
def readBack (entry : WritableEntry) (look : Look) : Option (Option Bytes) :=
  if !CONFIRM_WRITES_BY_READING_BACK then some none
  else
    match look with
    | .absent | .writeOnly => some none
    | .raised => none
    | .answer raw =>
        match env.openRead entry raw with
        | .error _ => none
        | .ok reported => some reported

/-- From the acknowledgement to the next await: the settling, and the read that is due. -/
def confirm (s : Cache) (i : ℕ) (o : Order) (layouts : ℕ) (look : Look) (raises : Bool) : Cache :=
  match readBack env o.entry look with
  | none => s.setWriter i .gone
  | some reported =>
      let s := s.settleWrittenValue o layouts reported
      if raises then s.setWriter i .gone
      else if FOLD_A_DUE_READ_INTO_A_WRITE && s.readIsDue then
        s.carryRead env i (if reported.isSome then some o.number else none)
      else s.setWriter i .gone

def writerStep (s : Cache) (i : ℕ) (w : Writer) : CacheAct → Cache
  | .acknowledge _ =>
      match w with
      | .begun o => s.setWriter i (.acknowledged o s.layouts)
      | _ => s
  | .confirm _ look raises =>
      match w with
      | .acknowledged o layouts => s.confirm env i o layouts look raises
      | _ => s
  | .carry _ look =>
      match w with
      | .folding c wasReading (e :: rest) failed =>
          match s.readEntry env e look with
          | (s, .ok refused) => s.setWriter i (.folding c wasReading rest (failed || refused))
          | (s, .error _) => s.carryEnds i c wasReading false
      | _ => s
  | .carried _ =>
      match w with
      | .folding c wasReading [] failed => s.carryEnds i c wasReading !failed
      | _ => s
  | .failWrite _ =>
      match w with
      | .folding c wasReading _ _ => s.carryEnds i c wasReading false
      | _ => s.setWriter i .gone
  | .cancelWrite _ =>
      match w with
      | .folding _ wasReading _ _ =>
          { s with readConnected := false, reading := wasReading }.setWriter i .gone
      | _ => s.setWriter i .gone
  | _ => s

/-! ## Advertisements -/

/-- `_notice_revision`, as far as the read it asks for. -/
def noticeRevision (s : Cache) (revision : Option ℕ) (reachable : Bool) : Cache :=
  match revision with
  | none => s
  | some r =>
      let s := { s with revisionAdvertised := revision }
      if s.revisionRead = some r then s
      else if (s.readFailedAt.map fun t => decide (s.now - t < READ_RETRY)).getD false then s
      else s.requestRead reachable

/-- The declared layout is not the one that was known. -/
def layoutChanges (s : Cache) (layout : Bytes) : Bool :=
  match s.declaration with
  | none => false
  | some known => layout ≠ known.layout

/-- The layout was not the known one before this advertisement. -/
def newLayout (s : Cache) (layout : Bytes) : Bool := s.declaration.isNone || s.layoutChanges layout

/-- What the records of the machine make of an advertisement. -/
def record (s : Cache) (layout : Bytes) (revision : Option ℕ) (readable : ℕ → Bool) : Cache :=
  let shown := (revision.or s.revisionAdvertised).toList
  if s.newLayout layout then
    { s with layouts := s.layouts + 1, seen := shown, readable := readable }
  else { s with seen := s.seen ++ shown }

/-- `async_handle_advertisement`, of a packet that carries a declaration. -/
def advertise (s : Cache) (layout : Bytes) (revision : Option ℕ) (readable : ℕ → Bool)
    (reachable : Bool) : Cache :=
  let s : Cache :=
    (if s.layoutChanges layout then { s with values := fun _ => none } else s).record
      layout revision
      readable
  noticeRevision { s with declaration := some ⟨entriesFrom 1 layout, revision⟩ } revision reachable

def step (s : Cache) (a : CacheAct) : Cache :=
  match a with
  | .advertise layout revision readable reachable => s.advertise layout revision readable reachable
  | .request reachable => s.requestRead reachable
  | .pass seconds => { s with now := s.now + seconds }
  | .command number value coalesce =>
      match s.entry number with
      | none => s
      | some entry =>
          { s with writers := s.writers ++
              [.begun ⟨number, value, coalesce, entry, s.valueOf number⟩] }
  | .acknowledge i | .confirm i _ _ | .carry i _ | .carried i | .failWrite i | .cancelWrite i =>
      s.writers[i]?.elim s fun w => s.writerStep env i w a
  | .link i _ | .connected i | .read i _ | .walked i | .closed i _ _ | .failRead i
  | .cancelRead i =>
      s.readers[i]?.elim s fun r => s.readerStep env i r a

end Cache

end BTHomeWritable.Receiver
