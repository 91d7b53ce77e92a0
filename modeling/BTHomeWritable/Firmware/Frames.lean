import BTHomeWritable.Firmware.Setup

/-!
# What the programs leave alone

Whether a program keeps some part `f` of the world is settled by the handful of
assignments it is made of, and so is whether it moves the world along a preorder
`R` at all.  Each program is gone through once, for a preorder; keeping `f` is the
preorder `Keeps f`.

* The structures that end in `Moves` list what a family of programs assigns,
  against `R`: `PublishMoves`, `RebuildMoves`, `ScheduleMoves`, `TickMoves`,
  `TakeMoves`, `StirMoves` and `EventMoves`, each built on the ones before.
  Sealing enters as a whole (`Seals`), and opening a write likewise, since some
  preorders hold of the whole and not of each of its assignments.
* Those that end in `Keeps` list the same for `Keeps f`.  A field is left out
  where `f` does not look at what is assigned, so that an instance names only the
  fields in which there is something to prove.
* `SealKeeps.moves` to `EventKeeps.moves` pass from the second kind to the first.

`StirMoves.react` is about every event but `setup` and the expiry of a window,
`EventMoves.react` about that as well, and `InstallKeeps.install` about `setup`,
which `install_eq` splits into claiming (`claim`), publishing and what it does
however its publishing ends (`attend`).
-/

namespace BTHomeWritable.Firmware

open Device Throwing

variable {τ : Type} {f : World → τ} {env : Env}

/-- `f` is kept by what sealing assigns. -/
structure SealKeeps (f : World → τ) : Prop where
  asked : ∀ w : World, f w.asked = f w := by intros; rfl
  bumpAdvCounter : ∀ w : World, f w.bumpAdvCounter = f w := by intros; rfl
  advMark : ∀ (w : World) (mark : ℕ), f { w with st := { w.st with advMark := mark } } = f w := by
    intros; rfl
  writeJSON : ∀ w : World, f w.writeJSON = f w := by intros; rfl

/-- `f` is kept by what publishing a packet assigns. -/
structure PublishKeeps (f : World → τ) : Prop extends SealKeeps f where
  hand : ∀ (w : World) (sd : Bytes) (opts : AdvOptions) (accepted : Bool),
    f (w.hand sd opts accepted) = f w := by intros; rfl
  onAir : ∀ (w : World) (sd : Bytes), f (w.onAir sd) = f w := by intros; rfl
  dropLastSd : ∀ w : World, f w.dropLastSd = f w := by intros; rfl

/-- `f` is kept by what building one assigns. -/
structure RebuildKeeps (f : World → τ) : Prop extends SealKeeps f where
  bumpPacketId : ∀ w : World, f w.bumpPacketId = f w := by intros; rfl
  render : ∀ (w : World) (r : Render),
    f (w.asked.setPlan (renderServiceData w.st.plan r).1) = f w := by intros; rfl

/-- `f` is kept by both. -/
structure RefreshKeeps (f : World → τ) : Prop extends PublishKeeps f, RebuildKeeps f

/-- `f` is kept by what arming the read timer assigns. -/
structure ScheduleKeeps (f : World → τ) : Prop where
  asked : ∀ w : World, f w.asked = f w := by intros; rfl
  clearTimer : ∀ w : World, f w.clearTimer = f w := by
    intros
    unfold World.clearTimer
    split <;> rfl
  settle : ∀ (w : World) (now interval : ℤ),
    f (w.setOrdered (nextDue now interval w.st.plan.ordered).1) = f w := by intros; rfl
  setTimer : ∀ (w : World) (delay : ℤ), f (w.setTimer delay) = f w := by intros; rfl

/-- `f` is kept by what a wake assigns. -/
structure TickKeeps (f : World → τ) : Prop extends RefreshKeeps f, ScheduleKeeps f where
  read : ∀ (w : World) (read : ℕ → Except JsError Obj) (now : ℤ),
    f (w.asked.setOrdered (readDue read now w.st.plan.ordered).1) = f w := by intros; rfl
  noteReturn : ∀ w : World, f w.noteReturn = f w := by intros; rfl

/-- `f` is kept by what moves the rate. -/
structure RateKeeps (f : World → τ) : Prop where
  clearFastTimer : ∀ w : World, f w.clearFastTimer = f w := by
    intros
    unfold World.clearFastTimer
    split <;> rfl
  setAdvInterval : ∀ (w : World) (v : ℤ), f (w.setAdvInterval v) = f w := by intros; rfl

/-- `f` is kept by what answering a read assigns. -/
structure ServeKeeps (f : World → τ) : Prop extends SealKeeps f where
  serve : ∀ (w : World) (writable : Writable) (bytes : Bytes),
      f (w.serve writable bytes) = f w := by
    intros; rfl

/-- `f` is kept by what taking a write assigns. -/
structure WriteKeeps (f : World → τ) : Prop extends SealKeeps f where
  setWriteCounter : ∀ (w : World) (counter : ℕ), f (w.setWriteCounter counter) = f w := by
    intros; rfl
  writeMark : ∀ (w : World) (mark : ℕ),
      f { w with st := { w.st with writeMark := mark } } = f w := by
    intros; rfl
  countReject : ∀ (w : World) (e : JsError), f (w.countReject e) = f w := by
    intros
    unfold World.countReject
    split <;> rfl
  noteSet : ∀ (w : World) (i : ℕ) (v : Value) (returned : Bool),
    f (w.noteSet i v returned) = f w := by intros; rfl
  defer : ∀ (w : World) (d : Deferred), f (w.defer d) = f w := by intros; rfl

/-- `f` is kept by what `setup` does once `st` is the new state. -/
structure InstallKeeps (f : World → τ) : Prop extends RefreshKeeps f, ScheduleKeeps f,
    ServeKeeps f where
  offered : ∀ (w : World) (offered : Bool), f { w with reportOffered := offered } = f w := by
    intros; rfl
  listening : ∀ w : World, f { w with listening := true } = f w := by intros; rfl

/-- `f` is kept by everything but `setup` and the expiry of a window. -/
structure StirKeeps (f : World → τ) : Prop extends TickKeeps f, RateKeeps f, ServeKeeps f,
    WriteKeeps f where
  setChangeTimer : ∀ w : World, f w.setChangeTimer = f w := by intros; rfl
  setFastTimer : ∀ w : World, f w.setFastTimer = f w := by intros; rfl
  goneIdle : ∀ w : World,
    f { w with st := { w.st with fastTimer := none, advInterval := w.st.interval } } = f w := by
    intros; rfl
  interval : ∀ (w : World) (v : ℤ), f { w with st := { w.st with interval := v } } = f w := by
    intros; rfl
  inherited : ∀ (w : World) (v : ℤ),
    f (w.setOrdered (w.st.plan.ordered.map (inheritInterval w.st.entries v))) = f w := by
    intros; rfl
  forgotten : ∀ w : World, f (w.setOrdered (forgetReads w.st.plan.ordered)) = f w := by intros; rfl
  fastTimeout : ∀ (w : World) (v : ℤ), f { w with st := { w.st with fastTimeout := v } } = f w := by
    intros; rfl
  reported : ∀ (w : World) (bytes : Bytes), f { w with report := bytes } = f w := by intros; rfl
  spent : ∀ (w : World) (handle : ℕ), f (w.clearTimeout handle) = f w := by intros; rfl
  store : ∀ (w : World) (k : ℕ) (data : Bytes), f (w.store k data) = f w := by intros; rfl
  taken : ∀ w : World, f { w with deferred := [] } = f w := by intros; rfl

/-- `f` is kept by everything but `setup`. -/
structure EventKeeps (f : World → τ) : Prop extends StirKeeps f where
  bumpRevision : ∀ w : World, f w.bumpRevision = f w := by intros; rfl
  dropChangeTimer : ∀ w : World, f { w with st := { w.st with changeTimer := none } } = f w := by
    intros; rfl

/-! ## Calling out -/

@[simp] theorem left_ask (call : Call) (w : World) : left (ask env call) w = w.asked := by
  cases hcall : env.throws w.calls call <;> simp only [left, ask, hcall]

theorem frame_ask {R : World → World → Prop} (h : ∀ w : World, R w w.asked) (call : Call) :
    Frame R (ask env call) := by
  intro w
  rw [left_ask]
  exact h w

theorem frame_report {R : World → World → Prop} [IsPreorder World R]
    (h : ∀ w : World, R w w.asked) (e : JsError) : Frame R (report env e) :=
  Frame.bind (Frame.look id) fun _ => Frame.doIf (frame_ask h _)

theorem keeps_ask (h : ∀ w : World, f w.asked = f w) (call : Call) :
    Frame (Keeps f) (ask env call) := frame_ask h call

theorem keeps_getTime (h : ∀ w : World, f w.asked = f w) : Frame (Keeps f) (getTime env) := h

theorem keeps_report (h : ∀ w : World, f w.asked = f w) (e : JsError) :
    Frame (Keeps f) (report env e) := frame_report h e

theorem keeps_guarded (h : ∀ w : World, f w.asked = f w) {p : Fw Unit} (hp : Frame (Keeps f) p) :
    Frame (Keeps f) (guarded env p) :=
  Frame.attempt hp fun e => keeps_report h e

theorem keeps_reject (h : ∀ w : World, f w.asked = f w) {e : JsError}
    (hcount : ∀ w : World, f (w.countReject e) = f w) : Frame (Keeps f) (reject env e) :=
  Frame.bind (Frame.update hcount) fun _ => keeps_report h e

/-! ## Sealing and publishing -/

/-- What sealing assigns moves along `R`. -/
structure SealMoves (R : World → World → Prop) : Prop where
  asked : ∀ w : World, R w w.asked
  bumpAdvCounter : ∀ w : World, R w w.bumpAdvCounter
  advMark : ∀ (w : World) (mark : ℕ), R w { w with st := { w.st with advMark := mark } }
  writeJSON : ∀ w : World, R w w.writeJSON

/-- Sealing as a whole moves along `R`. -/
structure Seals (env : Env) (R : World → World → Prop) : Prop where
  asked : ∀ w : World, R w w.asked
  sealUnder : ∀ (pt : Bytes) (info : UInt8), Frame R (sealUnder env pt info)

/-- What publishing a packet assigns. -/
structure PublishMoves (env : Env) (R : World → World → Prop) : Prop extends Seals env R where
  hand : ∀ (w : World) (sd : Bytes) (opts : AdvOptions) (accepted : Bool),
    R w (w.hand sd opts accepted)
  onAir : ∀ (w : World) (sd : Bytes), R w (w.onAir sd)
  dropLastSd : ∀ w : World, R w w.dropLastSd

/-- What building one assigns. -/
structure RebuildMoves (env : Env) (R : World → World → Prop) : Prop extends Seals env R where
  bumpPacketId : ∀ w : World, R w w.bumpPacketId
  render : ∀ (w : World) (r : Render), R w (w.asked.setPlan (renderServiceData w.st.plan r).1)

/-- What arming the read timer assigns. -/
structure ScheduleMoves (R : World → World → Prop) : Prop where
  asked : ∀ w : World, R w w.asked
  clearTimer : ∀ w : World, R w w.clearTimer
  settle : ∀ (w : World) (now interval : ℤ),
    R w (w.setOrdered (nextDue now interval w.st.plan.ordered).1)
  setTimer : ∀ (w : World) (delay : ℤ), R w (w.setTimer delay)

/-- What a wake assigns. -/
structure TickMoves (env : Env) (R : World → World → Prop) : Prop extends PublishMoves env R,
    RebuildMoves env R, ScheduleMoves R where
  read : ∀ (w : World) (read : ℕ → Except JsError Obj) (now : ℤ),
    R w (w.asked.setOrdered (readDue read now w.st.plan.ordered).1)
  noteReturn : ∀ w : World, R w w.noteReturn

/-- What taking a write assigns, `openWrite` as a whole. -/
structure TakeMoves (env : Env) (R : World → World → Prop) : Prop where
  asked : ∀ w : World, R w w.asked
  openWrite : ∀ pl : Bytes, Frame R (openWrite env pl)
  countReject : ∀ (w : World) (e : JsError), R w (w.countReject e)
  noteSet : ∀ (w : World) (i : ℕ) (v : Value) (returned : Bool), R w (w.noteSet i v returned)
  defer : ∀ (w : World) (d : Deferred), R w (w.defer d)

/-- What everything but `setup` and the expiry of a window assigns. -/
structure StirMoves (env : Env) (R : World → World → Prop) : Prop extends TickMoves env R,
    TakeMoves env R where
  clearFastTimer : ∀ w : World, R w w.clearFastTimer
  setAdvInterval : ∀ (w : World) (v : ℤ), R w (w.setAdvInterval v)
  serve : ∀ (w : World) (writable : Writable) (bytes : Bytes), R w (w.serve writable bytes)
  setChangeTimer : ∀ w : World, R w w.setChangeTimer
  setFastTimer : ∀ w : World, R w w.setFastTimer
  goneIdle : ∀ w : World,
    R w { w with st := { w.st with fastTimer := none, advInterval := w.st.interval } }
  interval : ∀ (w : World) (v : ℤ), R w { w with st := { w.st with interval := v } }
  inherited : ∀ (w : World) (v : ℤ),
    R w (w.setOrdered (w.st.plan.ordered.map (inheritInterval w.st.entries v)))
  forgotten : ∀ w : World, R w (w.setOrdered (forgetReads w.st.plan.ordered))
  fastTimeout : ∀ (w : World) (v : ℤ), R w { w with st := { w.st with fastTimeout := v } }
  reported : ∀ (w : World) (bytes : Bytes), R w { w with report := bytes }
  spent : ∀ (w : World) (handle : ℕ), R w (w.clearTimeout handle)
  store : ∀ (w : World) (k : ℕ) (data : Bytes), R w (w.store k data)
  taken : ∀ w : World, R w { w with deferred := [] }

/-- What everything but `setup` assigns. -/
structure EventMoves (env : Env) (R : World → World → Prop) : Prop extends StirMoves env R where
  bumpRevision : ∀ w : World, R w w.bumpRevision
  dropChangeTimer : ∀ w : World, R w { w with st := { w.st with changeTimer := none } }

theorem SealKeeps.moves (h : SealKeeps f) : SealMoves (Keeps f) :=
  ⟨h.asked, h.bumpAdvCounter, h.advMark, h.writeJSON⟩

theorem ScheduleKeeps.moves (h : ScheduleKeeps f) : ScheduleMoves (Keeps f) :=
  ⟨h.asked, h.clearTimer, h.settle, h.setTimer⟩

section Moves

variable {R : World → World → Prop} [IsPreorder World R]

theorem SealMoves.saveMarks (h : SealMoves R) : Frame R (saveMarks env) :=
  Frame.bind (frame_ask h.asked _) fun _ => Frame.update h.writeJSON

theorem SealMoves.noteAdvCounter (h : SealMoves R) (counter : ℕ) :
    Frame R (noteAdvCounter env counter) :=
  Frame.bind (Frame.look id) fun _ => Frame.doIf <|
    Frame.bind (Frame.update fun w => h.advMark w _) fun _ => h.saveMarks

theorem SealMoves.sealUnder (h : SealMoves R) (pt : Bytes) (info : UInt8) :
    Frame R (sealUnder env pt info) := by
  refine Frame.bind (Frame.look id) fun w => ?_
  refine Frame.bind (Frame.update h.bumpAdvCounter) fun _ => ?_
  refine Frame.bind (h.noteAdvCounter _) fun _ => ?_
  refine Frame.bind (frame_ask h.asked _) fun _ => ?_
  split
  · exact Frame.throw _
  · exact Frame.pure _

theorem SealMoves.seals (h : SealMoves R) : Seals env R := ⟨h.asked, h.sealUnder⟩

theorem Seals.sealIfKeyed (h : Seals env R) (sd : Bytes) : Frame R (sealIfKeyed env sd) := by
  refine Frame.bind (Frame.look id) fun w => ?_
  split
  · exact Frame.bind (h.sealUnder _ _) fun _ => Frame.pure _
  · exact Frame.pure _

theorem Seals.readValue (h : Seals env R) (writable : Writable) :
    Frame R (readValue env writable) := by
  refine Frame.bind (Frame.look id) fun w => ?_
  split
  · exact Frame.throw _
  · split
    · exact Frame.throw _
    · refine Frame.bind (Frame.update h.asked) fun _ => ?_
      split
      · exact Frame.throw _
      · dsimp only
        split
        · exact h.sealUnder _ _
        · exact Frame.pure _

theorem Seals.publishRead (h : Seals env R) {writable : Writable}
    (hserve : ∀ (w : World) (bytes : Bytes), R w (w.serve writable bytes)) :
    Frame R (publishRead env writable) :=
  Frame.bind (h.readValue writable) fun value =>
    Frame.bind (frame_ask h.asked _) fun _ => Frame.update (hserve · value)

/-- Publishing the values of the readable entries. -/
theorem Seals.publishReads (h : Seals env R) {writables : List Writable}
    (hserve : ∀ writable ∈ writables, ∀ (w : World) (bytes : Bytes),
      R w (w.serve writable bytes)) : Frame R (publishReads env writables) := by
  induction writables with
  | nil => exact Frame.pure ()
  | cons writable rest ih =>
      refine Frame.bind (Frame.doIf (h.publishRead (hserve writable (List.mem_cons_self ..))))
        fun _ => ih fun other hother => ?_
      exact hserve other (List.mem_cons_of_mem _ hother)

theorem PublishMoves.setAdvertising (h : PublishMoves env R) (sd : Bytes) (opts : AdvOptions) :
    Frame R (Firmware.setAdvertising env sd opts) := by
  intro w
  cases hradio : env.throws w.calls (.setAdvertising sd opts) <;>
    simp only [left, Firmware.setAdvertising, hradio] <;>
    exact trans_of R (h.asked w) (h.hand w.asked sd opts _)

theorem PublishMoves.publishFallback (h : PublishMoves env R) (sd : Bytes) (opts : AdvOptions)
    (e : JsError) : Frame R (publishFallback env sd opts e) := by
  refine Frame.bind (Frame.look id) fun u => ?_
  refine Frame.bind (h.toSeals.sealIfKeyed _) fun small => ?_
  refine Frame.bind (Frame.attempt ?_ fun e2 => ?_) fun _ => Frame.throw _
  · exact Frame.bind (h.setAdvertising _ _) fun _ =>
      Frame.bind (Frame.update (h.onAir · small)) fun _ => Frame.pure ""
  · exact Frame.bind (Frame.update h.dropLastSd) fun _ => Frame.pure _

theorem PublishMoves.publish (h : PublishMoves env R) (sd : Bytes) : Frame R (publish env sd) := by
  refine Frame.bind (Frame.look id) fun w => ?_
  refine Frame.attempt ?_ fun e => h.publishFallback sd _ e
  exact Frame.bind (h.setAdvertising _ _) fun _ => Frame.update (h.onAir · sd)

theorem RebuildMoves.rebuild (h : RebuildMoves env R) (cached : Bool) :
    Frame R (rebuild env cached) := by
  refine Frame.bind (Frame.update h.bumpPacketId) fun _ => ?_
  refine Frame.bind (show Frame R (getTime env) from h.asked) fun now => ?_
  refine Frame.bind (fun w => h.render w _) fun rendered => ?_
  cases rendered with
  | error x => exact Frame.throw x
  | ok sd => exact h.toSeals.sealIfKeyed sd

theorem frame_refreshAdvertising (hpublish : PublishMoves env R) (hrebuild : RebuildMoves env R)
    (cached : Bool) : Frame R (refreshAdvertising env cached) :=
  Frame.bind (hrebuild.rebuild cached) fun sd => hpublish.publish sd

theorem ScheduleMoves.schedule (h : ScheduleMoves R) : Frame R (schedule env) := by
  refine Frame.bind (Frame.update h.clearTimer) fun _ => ?_
  refine Frame.bind (show Frame R (getTime env) from h.asked) fun now => ?_
  refine Frame.bind (fun w => h.settle w now _) fun wait => ?_
  cases wait with
  | none => exact Frame.pure ()
  | some wait => exact Frame.update (h.setTimer · _)

theorem frame_republishRate (hpublish : PublishMoves env R) (hrebuild : RebuildMoves env R) :
    Frame R (republishRate env) := by
  refine Frame.bind (Frame.look id) fun w => ?_
  split
  · exact frame_refreshAdvertising hpublish hrebuild false
  · exact hpublish.publish _

theorem frame_readSensors (hasked : ∀ w : World, R w w.asked)
    (hread : ∀ (w : World) (read : ℕ → Except JsError Obj) (now : ℤ),
      R w (w.asked.setOrdered (readDue read now w.st.plan.ordered).1)) :
    Frame R (readSensors env) := by
  refine Frame.bind (show Frame R (getTime env) from hasked) fun now => ?_
  refine Frame.bind (fun w => hread w _ now) fun moved => ?_
  cases moved with
  | error x => exact Frame.throw x
  | ok moved => exact Frame.pure moved

/-- `tick` up to where it arms the read timer. -/
def readAndRefresh (env : Env) : Fw Bool := do
  let moved ← readSensors env
  doIf moved (refreshAdvertising env true)
  pure moved

theorem tick_eq (env : Env) : tick env = (do
    let moved ← readAndRefresh env
    schedule env
    update World.noteReturn
    pure moved) := by
  simp only [tick, readAndRefresh, bind_assoc, pure_bind]

theorem frame_tick (hread : Frame R (readAndRefresh env)) (hschedule : Frame R (schedule env))
    (hnote : ∀ w : World, R w w.noteReturn) : Frame R (tick env) := by
  rw [tick_eq]
  refine Frame.bind hread fun moved => Frame.bind hschedule fun _ => ?_
  exact Frame.bind (Frame.update hnote) fun _ => Frame.pure moved

namespace TickMoves

variable (h : TickMoves env R)

include h

theorem refreshAdvertising (cached : Bool) : Frame R (refreshAdvertising env cached) :=
  frame_refreshAdvertising h.toPublishMoves h.toRebuildMoves cached

theorem republishRate : Frame R (republishRate env) :=
  frame_republishRate h.toPublishMoves h.toRebuildMoves

theorem readAndRefresh : Frame R (readAndRefresh env) :=
  Frame.bind (frame_readSensors h.toSeals.asked h.read) fun moved =>
    Frame.bind (Frame.doIf (h.refreshAdvertising true)) fun _ => Frame.pure moved

theorem tick : Frame R (tick env) :=
  frame_tick h.readAndRefresh h.toScheduleMoves.schedule h.noteReturn

end TickMoves

theorem frame_goFast (hclear : ∀ w : World, R w w.clearFastTimer)
    (hset : ∀ (w : World) (v : ℤ), R w (w.setAdvInterval v)) : Frame R goFast := by
  refine Frame.bind (Frame.update hclear) fun _ => ?_
  refine Frame.bind (Frame.look id) fun w => ?_
  split
  · exact Frame.pure false
  · exact Frame.bind (Frame.update (hset · _)) fun _ => Frame.pure true

theorem frame_reaction (hfast : Frame R goFast) (htick : Frame R (tick env))
    (hrate : Frame R (republishRate env)) : Frame R (reaction env) :=
  Frame.bind hfast fun _ => Frame.bind htick fun _ => Frame.doIf hrate

/-! ## Along a preorder: answering reads -/

theorem Seals.readValues (h : Seals env R) (writables : List Writable) :
    Frame R (readValues env writables) := by
  induction writables with
  | nil => exact Frame.pure []
  | cons writable rest ih =>
      unfold Firmware.readValues
      split
      · refine Frame.bind (h.readValue writable) fun value => ?_
        exact Frame.bind ih fun values => Frame.pure _
      · exact ih

theorem Seals.runDeferred (h : Seals env R)
    (hserve : ∀ (w : World) (writable : Writable) (bytes : Bytes), R w (w.serve writable bytes))
    (hreported : ∀ (w : World) (bytes : Bytes), R w { w with report := bytes }) (d : Deferred) :
    Frame R (runDeferred env d) := by
  cases d with
  | publishRead writable =>
      exact Frame.attempt (h.publishRead fun w => hserve w writable) fun e =>
        frame_report h.asked e
  | counterReport challenge =>
      refine Frame.attempt ?_ fun e => frame_report h.asked _
      refine Frame.bind (Frame.look id) fun w => ?_
      refine Frame.bind (h.sealUnder _ _) fun value => ?_
      exact Frame.bind (frame_ask h.asked _) fun _ => Frame.update fun w => hreported w value

theorem runAll_moves (hrun : ∀ d, Frame R (runDeferred env d)) (ds : List Deferred) (w : World) :
    R w (runAll env ds w) := by
  induction ds generalizing w with
  | nil => exact refl_of R w
  | cons d rest ih => exact trans_of R (hrun d w) (ih _)

/-! ## Along a preorder: taking writes -/

theorem frame_reject {e : JsError} (hasked : ∀ w : World, R w w.asked)
    (hcount : ∀ w : World, R w (w.countReject e)) : Frame R (reject env e) :=
  Frame.bind (Frame.update hcount) fun _ => frame_report hasked e

namespace TakeMoves

variable (h : TakeMoves env R)

include h

theorem applyWrite (writable : Writable) (pl : Bytes) : Frame R (applyWrite env writable pl) := by
  refine Frame.bind (Frame.look id) fun w => ?_
  split
  · exact Frame.pure _
  · split
    · exact Frame.pure _
    · intro u
      unfold left callSet
      cases env.set u.calls writable.entryIndex _ with
      | ok _ => exact trans_of R (h.asked u) (h.noteSet _ _ _ _)
      | error thrown => exact trans_of R (h.asked u) (h.noteSet _ _ _ _)

/-- A write moves along `R` once what follows an accepted one does. -/
theorem handleWrite (hreaction : Frame R (reaction env)) (k : ℕ) (pl : Bytes) :
    Frame R (handleWrite env k pl) := by
  refine Frame.bind (Frame.look id) fun w => ?_
  split
  · exact frame_reject h.asked (h.countReject · _)
  · refine Frame.bind (h.applyWrite _ _) fun refused => ?_
    refine Frame.bind (Frame.doIf (Frame.update (h.defer · _))) fun _ => ?_
    cases refused with
    | some e => exact frame_reject h.asked (h.countReject · e)
    | none => exact Frame.attempt hreaction fun e => frame_report h.asked e

theorem onWrite (hreaction : Frame R (reaction env)) (k : ℕ) (data : Bytes) :
    Frame R (onWrite env k data) := by
  refine Frame.bind (Frame.look id) fun w => ?_
  split
  · refine Frame.bind (h.openWrite data) fun opened => ?_
    cases opened with
    | none => exact Frame.pure ()
    | some pl => exact h.handleWrite hreaction k pl
  · exact h.handleWrite hreaction k data

theorem onChallenge (data : Bytes) : Frame R (onChallenge env data) := by
  unfold Firmware.onChallenge
  split
  · exact frame_reject h.asked (h.countReject · _)
  · exact Frame.update (h.defer · _)

end TakeMoves

/-! ## Along a preorder: events -/

theorem frame_goIdleAfterTimeout (hclear : ∀ w : World, R w w.clearFastTimer)
    (hset : ∀ w : World, R w w.setFastTimer) : Frame R goIdleAfterTimeout :=
  Frame.bind (Frame.update hclear) fun _ => Frame.update hset

theorem frame_changed (h : ∀ w : World, R w w.setChangeTimer) : Frame R changed := by
  refine Frame.bind (Frame.look id) fun u => ?_
  split
  · exact Frame.throw _
  · split
    · exact Frame.pure ()
    · exact Frame.update h

theorem frame_setFastTimeout
    (h : ∀ (w : World) (v : ℤ), R w { w with st := { w.st with fastTimeout := v } }) (ms : ℤ) :
    Frame R (setFastTimeout ms) := by
  unfold setFastTimeout
  split
  · exact Frame.throw _
  · exact Frame.bind (Frame.update fun w => h w ms) fun _ => Frame.pure _

/-- The event is the expiry of a window. -/
def World.expires (w : World) : Event → Bool
  | .fire handle => (w.timers.find? (·.handle = handle)).any (·.job = .publishChange)
  | _ => false

namespace StirMoves

variable (h : StirMoves env R)

include h

theorem goFast : Frame R goFast := frame_goFast h.clearFastTimer h.setAdvInterval

theorem reaction : Frame R (reaction env) :=
  frame_reaction h.goFast h.toTickMoves.tick h.toTickMoves.republishRate

theorem updateNow : Frame R (updateNow env) := by
  refine Frame.bind (Frame.update h.forgotten) fun _ => ?_
  refine Frame.bind (h.toTickMoves.refreshAdvertising false) fun _ => ?_
  exact Frame.bind h.toScheduleMoves.schedule fun _ => Frame.update h.noteReturn

theorem wake : Frame R (wake env) := by
  refine Frame.attempt (Frame.bind h.toTickMoves.tick fun _ => Frame.pure ()) fun e => ?_
  exact Frame.bind (frame_report h.toSeals.asked e) fun _ => Frame.update fun w => h.setTimer w _

theorem runJob {job : Job} (hjob : job ≠ .publishChange) : Frame R (runJob env job) := by
  cases job with
  | wake => exact h.wake
  | goIdle => exact Frame.bind (Frame.update h.goneIdle) fun _ => h.toTickMoves.republishRate
  | publishChange => exact absurd rfl hjob

theorem setAdvertisingInterval (ms : ℤ) : Frame R (setAdvertisingInterval env ms) := by
  unfold Firmware.setAdvertisingInterval
  split
  · exact Frame.throw _
  · refine Frame.bind (Frame.update fun w => h.interval w _) fun _ => ?_
    refine Frame.bind (Frame.update fun w => h.inherited w _) fun _ => ?_
    refine Frame.bind h.toScheduleMoves.schedule fun _ => ?_
    refine Frame.bind (Frame.look id) fun w => ?_
    refine Frame.bind (Frame.doIf ?_) fun _ => Frame.pure _
    exact Frame.bind (Frame.update (h.setAdvInterval · _)) fun _ => h.toTickMoves.republishRate

/-- Whatever happens to a device that is not set up again, but the expiry of a window. -/
theorem react {w : World} {event : Event} (hopen : w.expires event = false) :
    R w (react env w event) := by
  cases event with
  | update => exact h.updateNow w
  | changed => exact frame_changed h.setChangeTimer w
  | setAdvertisingInterval ms => exact h.setAdvertisingInterval ms w
  | setFastTimeout ms => exact frame_setFastTimeout h.fastTimeout ms w
  | write k data =>
      exact trans_of R (h.toTakeMoves.onWrite h.reaction k data w) (h.store _ k data)
  | challenge data =>
      simp only [Firmware.react]
      split
      · exact h.toTakeMoves.onChallenge data w
      · exact refl_of R w
  | connect =>
      simp only [Firmware.react]
      split
      · refine Frame.attempt ?_ (fun e => frame_report h.toSeals.asked e) w
        exact Frame.bind h.goFast fun _ => Frame.doIf h.toTickMoves.republishRate
      · exact refl_of R w
  | disconnect =>
      simp only [Firmware.react]
      split
      · refine Frame.attempt ?_ (fun e => frame_report h.toSeals.asked e) w
        exact frame_goIdleAfterTimeout h.clearFastTimer h.setFastTimer
      · exact refl_of R w
  | fire handle =>
      simp only [Firmware.react, fire]
      cases ht : w.timers.find? (·.handle = handle) with
      | none => exact refl_of R w
      | some t =>
          have hjob : t.job ≠ .publishChange := by
            simpa [World.expires, ht] using hopen
          exact trans_of R (h.spent w handle) (h.runJob hjob _)
  | turn =>
      exact trans_of R (h.taken w) (runAll_moves (h.toSeals.runDeferred h.serve h.reported) _ _)

end StirMoves

namespace EventMoves

variable (h : EventMoves env R)

include h

theorem publishChange : Frame R (publishChange env) := by
  refine Frame.bind (Frame.update h.dropChangeTimer) fun _ => ?_
  refine Frame.bind (Frame.update h.bumpRevision) fun _ => ?_
  refine Frame.bind (Frame.look id) fun w => ?_
  refine Frame.bind (h.toSeals.publishReads fun writable _ w => h.serve w writable) fun _ => ?_
  refine Frame.bind (h.toTickMoves.refreshAdvertising false) fun _ => ?_
  exact Frame.bind h.toScheduleMoves.schedule fun _ => Frame.update h.noteReturn

/-- Whatever happens to a device that is not set up again. -/
theorem react (w : World) (event : Event) : R w (react env w event) := by
  cases hexpires : w.expires event with
  | false => exact h.toStirMoves.react hexpires
  | true =>
      cases event with
      | fire handle =>
          simp only [World.expires, Option.any_eq_true, decide_eq_true_eq] at hexpires
          obtain ⟨t, ht, hjob⟩ := hexpires
          simp only [Firmware.react, fire, ht, hjob, Firmware.runJob]
          refine trans_of R (h.spent w handle) ?_
          exact Frame.attempt h.publishChange (fun e => frame_report h.toSeals.asked e) _
      | _ => simp [World.expires] at hexpires

end EventMoves

end Moves

/-! ## Keeping a part -/

theorem PublishKeeps.moves (h : PublishKeeps f) : PublishMoves env (Keeps f) :=
  { h.toSealKeeps.moves.seals with
    hand := h.hand, onAir := h.onAir, dropLastSd := h.dropLastSd }

theorem RebuildKeeps.moves (h : RebuildKeeps f) : RebuildMoves env (Keeps f) :=
  { h.toSealKeeps.moves.seals with bumpPacketId := h.bumpPacketId, render := h.render }

theorem TickKeeps.moves (h : TickKeeps f) : TickMoves env (Keeps f) :=
  { (h.toPublishKeeps.moves : PublishMoves env (Keeps f)),
    (h.toRebuildKeeps.moves : RebuildMoves env (Keeps f)), h.toScheduleKeeps.moves with
    read := h.read, noteReturn := h.noteReturn }

theorem SealKeeps.saveMarks (h : SealKeeps f) : Frame (Keeps f) (saveMarks env) :=
  h.moves.saveMarks

theorem SealKeeps.sealUnder (h : SealKeeps f) (pt : Bytes) (info : UInt8) :
    Frame (Keeps f) (sealUnder env pt info) := h.moves.sealUnder pt info

theorem SealKeeps.sealIfKeyed (h : SealKeeps f) (sd : Bytes) :
    Frame (Keeps f) (sealIfKeyed env sd) := h.moves.seals.sealIfKeyed sd

theorem SealKeeps.readValue (h : SealKeeps f) (writable : Writable) :
    Frame (Keeps f) (readValue env writable) := h.moves.seals.readValue writable

theorem SealKeeps.readValues (h : SealKeeps f) (writables : List Writable) :
    Frame (Keeps f) (readValues env writables) := h.moves.seals.readValues writables

theorem RebuildKeeps.rebuild (h : RebuildKeeps f) (cached : Bool) :
    Frame (Keeps f) (rebuild env cached) := h.moves.rebuild cached

theorem RefreshKeeps.refreshAdvertising (h : RefreshKeeps f) (cached : Bool) :
    Frame (Keeps f) (refreshAdvertising env cached) :=
  frame_refreshAdvertising h.toPublishKeeps.moves h.toRebuildKeeps.moves cached

theorem RefreshKeeps.republishRate (h : RefreshKeeps f) : Frame (Keeps f) (republishRate env) :=
  frame_republishRate h.toPublishKeeps.moves h.toRebuildKeeps.moves

theorem ScheduleKeeps.schedule (h : ScheduleKeeps f) : Frame (Keeps f) (schedule env) :=
  h.moves.schedule

theorem keeps_readSensors (h : ∀ w : World, f w.asked = f w)
    (hread : ∀ (w : World) (read : ℕ → Except JsError Obj) (now : ℤ),
      f (w.asked.setOrdered (readDue read now w.st.plan.ordered).1) = f w) :
    Frame (Keeps f) (readSensors env) := frame_readSensors h hread

theorem TickKeeps.readAndRefresh (h : TickKeeps f) : Frame (Keeps f) (readAndRefresh env) :=
  h.moves.readAndRefresh

theorem TickKeeps.tick (h : TickKeeps f) : Frame (Keeps f) (tick env) := h.moves.tick

theorem RateKeeps.goFast (h : RateKeeps f) : Frame (Keeps f) goFast :=
  frame_goFast h.clearFastTimer h.setAdvInterval

theorem RateKeeps.goIdleAfterTimeout (h : RateKeeps f)
    (hset : ∀ w : World, f w.setFastTimer = f w) : Frame (Keeps f) goIdleAfterTimeout :=
  frame_goIdleAfterTimeout h.clearFastTimer hset

theorem keeps_reaction (htick : TickKeeps f) (hrate : RateKeeps f) :
    Frame (Keeps f) (reaction env) :=
  frame_reaction hrate.goFast htick.tick htick.republishRate

theorem ServeKeeps.publishRead (h : ServeKeeps f) (writable : Writable) :
    Frame (Keeps f) (publishRead env writable) :=
  h.toSealKeeps.moves.seals.publishRead fun w => h.serve w writable

theorem ServeKeeps.publishReads (h : ServeKeeps f) (writables : List Writable) :
    Frame (Keeps f) (publishReads env writables) :=
  h.toSealKeeps.moves.seals.publishReads fun writable _ w => h.serve w writable

theorem ServeKeeps.runAll (h : ServeKeeps f)
    (hreported : ∀ (w : World) (bytes : Bytes), f { w with report := bytes } = f w)
    (ds : List Deferred) (w : World) : f (runAll env ds w) = f w :=
  runAll_moves (h.toSealKeeps.moves.seals.runDeferred h.serve hreported) ds w

/-! ## `setup` -/

/-- `install` up to where it publishes. -/
def claim (env : Env) (opts : SetupOpts) : Fw Unit := do
  let w ← look id
  doIf w.st.key.isSome (saveMarks env)
  doIf (w.st.plan.writable ≠ []) do
    let values ← readValues env w.st.plan.writable
    ask env .setServices
    update (World.register values (opts.counterReport && w.st.key.isSome))

/-- What `install` does however its publishing ends. -/
def attend (env : Env) : Fw Unit := do
  schedule env
  update fun w => { w with listening := true }

theorem install_eq (env : Env) (opts : SetupOpts) : install env opts = (do
    claim env opts
    always (refreshAdvertising env false) (attend env)) := by
  simp only [install, claim, attend, bind_assoc]

section Install

variable {R : World → World → Prop} [IsPreorder World R]

theorem moves_register
    (hserve : ∀ (w : World) (writable : Writable) (bytes : Bytes), R w (w.serve writable bytes))
    (hoffered : ∀ (w : World) (offered : Bool), R w { w with reportOffered := offered })
    (values : List (Writable × Bytes)) (offered : Bool) (w : World) :
    R w (w.register values offered) := by
  have hserved : R w (values.foldl (fun w v => w.serve v.1 v.2) w) := by
    induction values generalizing w with
    | nil => exact refl_of R w
    | cons v rest ih => exact trans_of R (hserve w v.1 v.2) (ih (w.serve v.1 v.2))
  exact trans_of R hserved (hoffered _ offered)

/-- Registering the characteristics, which `claim` does once the counters are saved. -/
theorem Seals.enrol (h : Seals env R)
    (hserve : ∀ (w : World) (writable : Writable) (bytes : Bytes), R w (w.serve writable bytes))
    (hoffered : ∀ (w : World) (offered : Bool), R w { w with reportOffered := offered })
    (writables : List Writable) (offered : Bool) :
    Frame R (doIf (writables ≠ []) do
      let values ← Firmware.readValues env writables
      ask env .setServices
      update (World.register values offered)) := by
  refine Frame.doIf (Frame.bind (h.readValues _) fun values => ?_)
  refine Frame.bind (frame_ask h.asked _) fun _ => Frame.update ?_
  exact moves_register hserve hoffered values _

theorem frame_attend (hschedule : Frame R (schedule env))
    (hlistening : ∀ w : World, R w { w with listening := true }) : Frame R (attend env) :=
  Frame.bind hschedule fun _ => Frame.update hlistening

end Install

theorem ServeKeeps.register (h : ServeKeeps f)
    (hoffered : ∀ (w : World) (offered : Bool), f { w with reportOffered := offered } = f w)
    (values : List (Writable × Bytes)) (offered : Bool) (w : World) :
    f (w.register values offered) = f w :=
  moves_register (R := Keeps f) h.serve hoffered values offered w

theorem ServeKeeps.claim (h : ServeKeeps f)
    (hoffered : ∀ (w : World) (offered : Bool), f { w with reportOffered := offered } = f w)
    (opts : SetupOpts) : Frame (Keeps f) (claim env opts) := by
  refine Frame.bind (Frame.look id) fun w => ?_
  refine Frame.bind (Frame.doIf h.toSealKeeps.saveMarks) fun _ => ?_
  exact h.toSealKeeps.moves.seals.enrol h.serve hoffered _ _

theorem InstallKeeps.install (h : InstallKeeps f) (opts : SetupOpts) :
    Frame (Keeps f) (install env opts) := by
  rw [install_eq]
  refine Frame.bind (h.toServeKeeps.claim h.offered opts) fun _ => Frame.always ?_ ?_
  · exact h.toRefreshKeeps.refreshAdvertising false
  · exact frame_attend h.toScheduleKeeps.schedule h.listening

/-! ## Keeping a part: writes and events -/

theorem WriteKeeps.noteWriteCounter (h : WriteKeeps f) (counter : ℕ) :
    Frame (Keeps f) (noteWriteCounter env counter) := by
  refine Frame.bind (Frame.look id) fun w => ?_
  refine Frame.bind (Frame.update (h.setWriteCounter · counter)) fun _ => Frame.doIf ?_
  exact Frame.bind (Frame.update fun w => h.writeMark w _) fun _ => h.toSealKeeps.saveMarks

theorem WriteKeeps.openWrite (h : WriteKeeps f) (pl : Bytes) :
    Frame (Keeps f) (openWrite env pl) := by
  have hrefuse : ∀ e : JsError,
      Frame (Keeps f) (do reject env e; pure none : Fw (Option Bytes)) := fun e =>
    Frame.bind (keeps_reject h.asked (h.countReject · e)) fun _ => Frame.pure none
  refine Frame.bind (Frame.look id) fun w => ?_
  split
  · exact hrefuse _
  · dsimp only
    split
    · exact hrefuse _
    · refine Frame.bind (keeps_ask h.asked _) fun _ => ?_
      split
      · exact hrefuse _
      · exact Frame.bind (h.noteWriteCounter _) fun _ => Frame.pure _

theorem WriteKeeps.moves (h : WriteKeeps f) : TakeMoves env (Keeps f) :=
  ⟨h.asked, h.openWrite, h.countReject, h.noteSet, h.defer⟩

theorem WriteKeeps.onChallenge (h : WriteKeeps f) (data : Bytes) :
    Frame (Keeps f) (onChallenge env data) := h.moves.onChallenge data

/-- A write moves along `R` once what follows an accepted one does. -/
theorem frame_onWrite {R : World → World → Prop} [IsPreorder World R]
    (hR : ∀ w w' : World, Keeps f w w' → R w w') (h : WriteKeeps f)
    (hreaction : Frame R (reaction env)) (k : ℕ) (data : Bytes) : Frame R (onWrite env k data) :=
  TakeMoves.onWrite
    { asked := fun w => hR _ _ (h.asked w)
      openWrite := fun pl => (h.openWrite pl).mono hR
      countReject := fun w e => hR _ _ (h.countReject w e)
      noteSet := fun w i v returned => hR _ _ (h.noteSet w i v returned)
      defer := fun w d => hR _ _ (h.defer w d) } hreaction k data

theorem keeps_changed (h : ∀ w : World, f w.setChangeTimer = f w) : Frame (Keeps f) changed :=
  frame_changed h

theorem keeps_setFastTimeout
    (h : ∀ (w : World) (v : ℤ), f { w with st := { w.st with fastTimeout := v } } = f w) (ms : ℤ) :
    Frame (Keeps f) (setFastTimeout ms) := frame_setFastTimeout h ms

theorem StirKeeps.moves (h : StirKeeps f) : StirMoves env (Keeps f) :=
  { (h.toTickKeeps.moves : TickMoves env (Keeps f)),
    (h.toWriteKeeps.moves : TakeMoves env (Keeps f)), h with }

theorem EventKeeps.moves (h : EventKeeps f) : EventMoves env (Keeps f) :=
  { (h.toStirKeeps.moves : StirMoves env (Keeps f)) with
    bumpRevision := h.bumpRevision, dropChangeTimer := h.dropChangeTimer }

/-- Whatever happens to a device that is not set up again, but the expiry of a window. -/
theorem StirKeeps.react (h : StirKeeps f) {w : World} {event : Event}
    (hopen : w.expires event = false) : f (react env w event) = f w := h.moves.react hopen

/-- Whatever happens to a device that is not set up again. -/
theorem EventKeeps.react (h : EventKeeps f) (w : World) (event : Event) :
    f (react env w event) = f w := h.moves.react w event

end BTHomeWritable.Firmware
