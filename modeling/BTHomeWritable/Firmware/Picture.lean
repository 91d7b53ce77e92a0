import BTHomeWritable.Firmware.Plans

/-!
# What a device means to say

A `Picture` is what a packet of the device has to carry: the readings captured
in the plan, the settings revision and the declaration, in the order of the
plan, under the device's key.  It forgets the packet id, which moves with every
packet, and the timers and intervals.  Whatever does not read a sensor and does
not count a change leaves the picture as it is.

`Outlook` is the picture with what the radio has of it: the packet on the air,
the one a change of the rate would repeat, and the returns noted so far.  The
`outlook_…Keeps` lemmas say which programs leave it alone, and `carries_of_whole`
reads off a picture what the packet that shows it carries (`Carries`).
-/

namespace BTHomeWritable.Firmware

open Device Throwing

variable {env : Env} {w u : World}

structure Picture where
  key : Option Bytes
  mac : Bytes
  info : UInt8
  decl : Option Bytes
  objs : List Slot
  readings : List Obj
  settingsRevision : Bool
  revision : Option UInt8

def picture (st : St) : Picture where
  key := st.key
  mac := st.mac
  info := st.plan.info
  decl := st.plan.decl
  objs := st.plan.objs
  readings := st.plan.ordered.map Sensor.obj
  settingsRevision := st.plan.settingsRevision
  revision := st.plan.rev.map fun _ => lowByte st.revision

/-- `frame` is `sd`, sealed if there is a key. -/
def Framed (env : Env) (key : Option Bytes) (mac sd frame : Bytes) : Prop :=
  match key with
  | none => frame = sd
  | some key => ∃ counter, frame = sealedAdvertising env.ccm key mac sd counter

namespace Picture

variable (pic : Picture) (pid : UInt8)

/-- What a slot names, under packet id `pid`. -/
def object : Slot → Obj
  | .pkt => ⟨PKT_ID, [pid]⟩
  | .sensor i => pic.readings.getD i (Sensor.obj default)
  | .rev => ⟨REV_ID, [pic.revision.getD 0]⟩

/-- The service data under packet id `pid`. -/
def bytes : Bytes := pic.info :: (encode (pic.objs.map (pic.object pid)) ++ pic.decl.getD [])

/-- `frame` is a packet that carries the picture. -/
def ShownBy (env : Env) (frame : Bytes) : Prop :=
  ∃ pid, Framed env pic.key pic.mac (pic.bytes pid) frame

/-- Every reading has its place in the packet, and so has the revision of a device with readable
entries. -/
structure Whole : Prop where
  objs : pic.objs.Perm (slots pic.readings.length pic.settingsRevision)
  revision : pic.revision.isSome = pic.settingsRevision

end Picture

/-! ## What keeps it -/

/-- The picture, what of it is out, and what stood at the returns so far. -/
structure Outlook where
  picture : Picture
  air : Option Bytes
  lastSd : Option Bytes
  returned : List Snapshot

def outlook (w : World) : Outlook where
  picture := picture w.st
  air := w.air
  lastSd := w.st.lastSd
  returned := w.returned

theorem outlook_setOrdered {ordered : List Sensor}
    (h : ordered.map Sensor.obj = w.st.plan.ordered.map Sensor.obj) :
    outlook (w.setOrdered ordered) = outlook w := by
  unfold outlook picture
  simp only [World.setOrdered, World.setPlan, h]

theorem map_obj_nextDue (now interval : ℤ) (sensors : List Sensor) :
    (nextDue now interval sensors).1.map Sensor.obj = sensors.map Sensor.obj := by
  induction sensors with
  | nil => rfl
  | cons it rest ih =>
      simp only [nextDue, List.map_cons, ih]
      congr 1
      unfold notAhead
      split <;> rfl

theorem outlook_sealKeeps : SealKeeps outlook where

theorem outlook_scheduleKeeps : ScheduleKeeps outlook where
  settle w now interval := outlook_setOrdered (map_obj_nextDue now interval w.st.plan.ordered)

theorem outlook_rateKeeps : RateKeeps outlook where

theorem outlook_serveKeeps : ServeKeeps outlook where

theorem outlook_writeKeeps : WriteKeeps outlook where

/-! ## What the packet says -/

/-- `sd` is made of a packet id, the bytes captured for every advertised entry, the settings
revision if the device has readable entries, and the declaration. -/
def Carries (p : Plan) (revision : ℕ) (sd : Bytes) : Prop :=
  ∃ pid objs, sd = p.info :: (encode objs ++ p.decl.getD []) ∧
    objs.Perm (⟨PKT_ID, [pid]⟩ :: (p.ordered.map Sensor.obj ++
      if p.settingsRevision then [⟨REV_ID, [lowByte revision]⟩] else []))

theorem map_object_slots (pic : Picture) (pid : UInt8) :
    (slots pic.readings.length pic.settingsRevision).map (pic.object pid) =
      ⟨PKT_ID, [pid]⟩ :: (pic.readings ++
        if pic.settingsRevision then [⟨REV_ID, [pic.revision.getD 0]⟩] else []) := by
  have hreadings : (List.range pic.readings.length).map (fun i => pic.object pid (.sensor i)) =
      pic.readings := by
    refine List.ext_getElem (by simp) fun i hi hi' => ?_
    simp [Picture.object, List.getD, hi']
  unfold slots
  rw [List.map_cons, List.map_append, List.map_map]
  refine congrArg₂ _ rfl (congrArg₂ _ hreadings ?_)
  split <;> rfl

theorem carries_of_whole {st : St} (h : (picture st).Whole) (pid : UInt8) :
    Carries st.plan st.revision ((picture st).bytes pid) := by
  refine ⟨pid, _, rfl, (h.objs.map ((picture st).object pid)).trans ?_⟩
  rw [map_object_slots]
  have hrev : st.plan.rev.isSome = st.plan.settingsRevision := by
    simpa [picture] using h.revision
  show List.Perm (_ :: (_ ++ if st.plan.settingsRevision = true then _ else _)) _
  split
  · rename_i hreadable
    obtain ⟨r, hr⟩ := Option.isSome_iff_exists.mp (hrev.trans hreadable)
    simp [picture, hr]
  · exact List.Perm.refl _

end BTHomeWritable.Firmware
