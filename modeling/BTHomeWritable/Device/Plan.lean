import BTHomeWritable.Device.Base
import BTHomeWritable.Lib.StableSort
import BTHomeWritable.Wire

/-!
# The advertised packet

`planPacket` works out once what a packet is made of, and `renderServiceData`
builds one from it.  The BTHome encoder is a parameter: `enc` probes a type
with a value, and `read i` is what `enc(e, e.get())` comes to for entry `i`,
which is an object or a throw.

The object list of the plan holds the sensors themselves, so a new reading
lands in the list without touching it.  Here the list holds `Slot`s, names of
those objects, looked up in the plan when the packet is built.
-/

namespace BTHomeWritable.Device

/-! ## Declarations and service data -/

def encodeDeclaration (ids : List UInt8) : Except JsError Bytes :=
  match ids.findIdx? (· ∈ FORBIDDEN) with
  | some i => .error (err .forbiddenEntry
      s!"entry {i + 1} is 0x{hex (ids.getD i 0).toNat}, which S2.1 forbids")
  | none =>
      if ids.length > 255 then
        .error (err .tooManyEntries s!"{ids.length} entries; the length byte holds 255")
      else .ok (DECL_ID :: UInt8.ofNat ids.length :: ids)

def buildServiceData (info : UInt8) (objs : List Obj) (decl : Option Bytes) (budget : ℤ) :
    Except JsError Bytes :=
  let b := info :: (encode objs ++ decl.getD [])
  if b.length > budget then
    .error (err .capacityExceeded
      s!"service data needs {b.length} bytes, {budget} available")
  else .ok b

/-! ## Entries -/

/-- An entry of `advertise`, with `undefined` as `none`. -/
structure Entry where
  type : String
  id : Option UInt8
  length : Option ℕ
  variableLength : Bool
  signed : Option Bool
  hasSet : Bool
  hasGet : Bool
  interval : Option ℕ
  deriving DecidableEq

/-- The values `writableSpec` encodes to learn about a type. -/
inductive Probe where
  | empty
  | one
  | two
  deriving DecidableEq

inductive Codec where
  | text
  | binary
  | event
  | bytes
  | number (scale : ℕ) (signed : Bool)
  deriving DecidableEq

structure WritableSpec where
  id : UInt8
  length : Option ℕ
  variableLength : Bool
  codec : Codec
  deriving DecidableEq

def TEXT_TYPES : List String := ["text"]
def EVENT_IDS : List UInt8 := [0x3A, 0x3C]
def SIGNED_IDS : List UInt8 :=
  [0x02, 0x08, 0x3F, 0x45, 0x57, 0x58, 0x59, 0x5A, 0x5B, 0x5C, 0x5D, 0x62, 0x63]

variable (enc : Entry → Probe → Except JsError Obj)

def writableSpec (e : Entry) (k : ℕ) : Except JsError WritableSpec :=
  match e.id with
  | some id =>
      if id ∈ FORBIDDEN then
        .error (err .forbiddenEntry s!"entry {k} is 0x{hex id.toNat}, which S2.1 forbids")
      else if !e.variableLength && !decide (0 < e.length.getD 0) then
        .error (err .writableWithoutLength
          s!"entry {k} declares id 0x{hex id.toNat} but no length")
      else
        .ok ⟨id, e.length, e.variableLength, if id ∈ EVENT_IDS then .event else .bytes⟩
  | none =>
      if e.type ∈ TEXT_TYPES then (enc e .empty).map fun o => ⟨o.id, none, true, .text⟩
      else
        match enc e .one, enc e .two with
        | .error x, _ | _, .error x => .error (err .unsupportedWritableType
            (s!"entry {k} (\"{e.type}\") cannot be encoded ({x.message}); " ++
              "declare it with id and length"))
        | .ok one, .ok two =>
            -- the probe takes an id and a scaled value for granted, which these are not
            if e.type = "raw" ∨ one.id ∈ EVENT_IDS ∨ one.id ∈ FORBIDDEN then
              .error (err .writableNeedsId s!"entry {k} (\"{e.type}\") needs id and length")
            else if one.value.length = 1 ∧ one.value.head? = some 1 ∧ two.value.head? = some 1 then
              .ok ⟨one.id, some one.value.length, false, .binary⟩
            else
              let scale := readUint (one.id :: one.value) 1 (1 + one.value.length)
              if scale = 0 then .ok ⟨one.id, some one.value.length, false, .bytes⟩
              else
                .ok ⟨one.id, some one.value.length, false,
                  .number scale (e.signed.getD (one.id ∈ SIGNED_IDS))⟩

/-! ## Plans -/

/-- An advertised entry and its last reading. -/
structure Sensor where
  id : UInt8
  value : Bytes
  entryIndex : ℕ
  readInterval : ℕ
  lastRead : ℤ
  deriving DecidableEq, Inhabited

structure Writable where
  spec : WritableSpec
  entry : ℕ
  entryIndex : ℕ
  readable : Bool
  deriving DecidableEq

/-- An object of the packet, by where the plan keeps it. -/
inductive Slot where
  | pkt
  | sensor (i : ℕ)
  | rev
  deriving DecidableEq

structure Plan where
  ordered : List Sensor
  writable : List Writable
  entryIds : List UInt8
  settingsRevision : Bool
  info : UInt8
  budget : ℤ
  decl : Option Bytes
  pkt : UInt8
  rev : Option UInt8
  objs : List Slot
  serviceDataLength : ℕ

def Sensor.obj (it : Sensor) : Obj := ⟨it.id, it.value⟩

/-- What a slot names. -/
def Plan.object (p : Plan) : Slot → Obj
  | .pkt => ⟨PKT_ID, [p.pkt]⟩
  | .sensor i => (p.ordered.getD i default).obj
  | .rev => ⟨REV_ID, [p.rev.getD 0]⟩

/-- Stable insertion sort by object id. -/
def stableSortByObjectId {α : Type} (id : α → UInt8) (items : List α) : List α :=
  StableSort.sort (fun a => (id a).toNat) items

variable (read : ℕ → Except JsError Obj)

def planEntries (defRead : ℕ) : List Entry → ℕ → List Sensor → List Writable →
    Except JsError (List Sensor × List Writable)
  | [], _, sensors, writable => .ok (sensors, writable)
  | e :: rest, i, sensors, writable =>
      if !e.hasSet && !e.hasGet then
        .error (err .entryWithoutAccessor
          s!"entry {i} (\"{e.type}\") has neither get() nor set()")
      else if e.hasSet then
        match writableSpec enc e (writable.length + 1) with
        | .error x => .error x
        | .ok spec =>
            planEntries defRead rest (i + 1) sensors
              (writable ++ [⟨spec, writable.length + 1, i, e.hasGet⟩])
      else
        match read i with
        | .error x => .error x
        | .ok b =>
            planEntries defRead rest (i + 1)
              (sensors ++ [⟨b.id, b.value, i, e.interval.getD defRead, 0⟩]) writable

/-! ## Reading and rendering -/

/-- Reads one advertised entry and says whether its bytes moved. -/
def readSensor (now : ℤ) (it : Sensor) : Sensor × Except JsError Bool :=
  match read it.entryIndex with
  | .error x => (it, .error x)
  | .ok b =>
      if b.id ≠ it.id then
        (it, .error (err .layoutDrift
          s!"entry {it.entryIndex} now encodes as 0x{hex b.id.toNat}, was 0x{hex it.id.toNat}"))
      else if it.value = b.value then ({ it with lastRead := now }, .ok false)
      else ({ it with lastRead := now, value := b.value }, .ok true)

/-- Re-reads every entry that is due; a throw leaves the ones before it read. -/
def readDue (now : ℤ) : List Sensor → List Sensor × Except JsError Bool
  | [] => ([], .ok false)
  | it :: rest =>
      if it.readInterval ≠ 0 ∧ now - it.lastRead < it.readInterval then
        -- not due: the last reading stands
        let (rest', moved) := readDue now rest
        (it :: rest', moved)
      else
        match readSensor read now it with
        | (it', .error x) => (it' :: rest, .error x)
        | (it', .ok moved) =>
            let (rest', movedToo) := readDue now rest
            (it' :: rest', movedToo.map (moved || ·))

/-- `x & 255`. -/
def lowByte (x : ℤ) : UInt8 := UInt8.ofNat (x % 256).toNat

/-- What one packet is rendered with; no `source` reuses the readings at hand. -/
structure Render where
  pid : ℤ
  source : Option (ℕ → Except JsError Obj)
  now : ℤ
  revision : Option ℤ

/-- `renderServiceData`: the plan it leaves and what it returns. -/
def renderServiceData (p : Plan) (r : Render) : Plan × Except JsError Bytes :=
  let p := { p with
    pkt := lowByte r.pid
    rev := p.rev.map fun _ => lowByte (r.revision.getD 0) }
  match r.source with
  | none => (p, buildServiceData p.info (p.objs.map p.object) p.decl p.budget)
  | some read =>
      match readDue read r.now p.ordered with
      | (ordered, .error x) => ({ p with ordered := ordered }, .error x)
      | (ordered, .ok _) =>
          let p := { p with ordered := ordered }
          (p, buildServiceData p.info (p.objs.map p.object) p.decl p.budget)

/-- The object list before it is sorted. -/
def slots (sensors : ℕ) (readable : Bool) : List Slot :=
  .pkt :: ((List.range sensors).map .sensor ++ if readable then [.rev] else [])

def planPacket (entries : List Entry) (defRead : Option ℕ) (encrypted : Bool)
    (limit : Option ℤ) : Except JsError Plan :=
  match planEntries enc read (defRead.getD 0) entries 0 [] [] with
  | .error x => .error x
  | .ok (sensors, writable) =>
      let readable := writable.any (·.readable)
      let p : Plan :=
        { ordered := stableSortByObjectId Sensor.id sensors
          writable := writable
          entryIds := writable.map (·.spec.id)
          settingsRevision := readable
          info := if encrypted then DEV_INFO_ENC else DEV_INFO
          budget := limit.getD BUDGET - if encrypted then ENC_OVERHEAD else 0
          decl := none
          pkt := 0
          rev := if readable then some 0 else none
          objs := []
          serviceDataLength := 0 }
      match if writable.isEmpty then .ok none else (encodeDeclaration p.entryIds).map some with
      | .error x => .error x
      | .ok decl =>
          let p := { p with
            decl := decl
            objs := stableSortByObjectId (fun slot => (p.object slot).id)
              (slots p.ordered.length readable) }
          -- the capacity check, on the readings just taken
          match renderServiceData p ⟨0, none, 0, some 0⟩ with
          | (_, .error x) => .error x
          | (p, .ok sd) => .ok { p with serviceDataLength := sd.length }

end BTHomeWritable.Device
