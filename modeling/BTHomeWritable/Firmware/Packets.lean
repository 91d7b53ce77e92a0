import BTHomeWritable.Device.PlanInv
import BTHomeWritable.Firmware.PacketIds

/-!
# What the packets of a run are made of

Readings may throw, drift and move between one packet and the next, the radio
may refuse a packet, and a change of the rate repeats bytes built long ago.
Whatever happens, what the radio is handed is framed from a packet that the plan
of the device could have built, or from the fallback.  `Good` is what the
readings of the advertised entries are known to be.

* `PlanOf` says that a plan was made of the entries and has only been read and
  rendered since; reading passes keep it.
* `Says` is what a device may put in a packet, and `Spoken` the frame around it.
  Plans that are `Alike` may say the same, which is why bytes from before a reading
  pass are still something to say (`Says.moved`).
* `Genuine` holds a packet against the device as it was when it was handed over.
* `Outspoken` is the invariant.  It looks at the `Core` of a world only, and a
  program is `Discreet` where it upholds it, whether it returns or throws.

`Outspoken.react` is the step and `genuine_run` the run, over every `setup()`.
-/

namespace BTHomeWritable.Firmware

open Device Throwing

variable {Good : Obj → Prop} {env : Env} {w u : World}

/-- The service data a plan builds, if it fits. -/
def plannedBytes (p : Plan) : Bytes := p.info :: (encode (p.objs.map p.object) ++ p.decl.getD [])

/-- A plan made of `entries`, whatever has been read and rendered since. -/
structure PlanOf (Good : Obj → Prop) (env : Env) (entries : List Entry) (encrypted : Bool)
    (p : Plan) : Prop where
  inv : ∃ ids limit, PlanInv Good env.encoder entries ids encrypted limit p
  info : p.info = if encrypted then DEV_INFO_ENC else DEV_INFO

/-- Every reading of an advertised entry that does not throw is `Good`. -/
def Reads (Good : Obj → Prop) (env : Env) (entries : List Entry) : Prop :=
  ∀ n i o, IsSensor entries i = true → env.read n i = .ok o → Good o

theorem Reads.reading {entries : List Entry} (h : Reads Good env entries) {n i : ℕ} {o : Obj}
    (hsensor : IsSensor entries i = true) (ho : env.reading n i = .ok o) : Good o := by
  unfold Env.reading at ho
  cases hread : env.read n i with
  | error f =>
      rw [hread] at ho
      cases ho
  | ok o' =>
      rw [hread] at ho
      obtain rfl := Except.ok.inj ho
      exact h n i o' hsensor hread

/-! ## Reading passes -/

theorem place_readSensor (read : ℕ → Except JsError Obj) (now : ℤ) (it : Sensor) :
    (readSensor read now it).1.place = it.place := by
  unfold readSensor
  split
  · rfl
  · split
    · rfl
    · split <;> rfl

/-- A reading of another id throws, so what is captured is the whole object that was read. -/
theorem good_readSensor {read : ℕ → Except JsError Obj} {it : Sensor} (now : ℤ)
    (hgood : Good it.obj) (hread : ∀ o, read it.entryIndex = .ok o → Good o) :
    Good (readSensor read now it).1.obj := by
  unfold readSensor
  cases ho : read it.entryIndex with
  | error x => exact hgood
  | ok b =>
      dsimp only
      split
      · exact hgood
      · rename_i hid
        split
        · exact hgood
        · have hobj : Sensor.obj { it with lastRead := now, value := b.value } = b := by
            simp [Sensor.obj, ← not_ne_iff.mp hid]
          rw [hobj]
          exact hread b ho

theorem good_readDue {read : ℕ → Except JsError Obj} {now : ℤ} {sensors : List Sensor}
    (hgood : ∀ it ∈ sensors, Good it.obj)
    (hread : ∀ it ∈ sensors, ∀ o, read it.entryIndex = .ok o → Good o) :
    ∀ it ∈ (readDue read now sensors).1, Good it.obj := by
  induction sensors with
  | nil => exact hgood
  | cons it rest ih =>
      rw [List.forall_mem_cons] at hgood hread
      have hrest := ih hgood.2 hread.2
      unfold readDue
      split
      · exact List.forall_mem_cons.mpr ⟨hgood.1, hrest⟩
      · have hone := good_readSensor now hgood.1 hread.1
        cases hit : readSensor read now it with
        | mk it' result =>
            rw [hit] at hone
            cases result with
            | error x => exact List.forall_mem_cons.mpr ⟨hone, hgood.2⟩
            | ok moved => exact List.forall_mem_cons.mpr ⟨hone, hrest⟩

/-- The readings and what is rendered of them may move, and the plan is still one of the entries. -/
theorem PlanOf.moved {entries : List Entry} {encrypted : Bool} {p : Plan}
    (h : PlanOf Good env entries encrypted p) {pkt : UInt8} {rev : Option UInt8}
    {ordered : List Sensor} (hrev : rev.isSome = p.rev.isSome)
    (hplace : ordered.map Sensor.place = p.ordered.map Sensor.place)
    (hgood : ∀ it ∈ ordered, Good it.obj) :
    PlanOf Good env entries encrypted { p with pkt := pkt, rev := rev, ordered := ordered } := by
  obtain ⟨ids, limit, hinv⟩ := h.inv
  exact ⟨⟨ids, limit, hinv.congr hrev hplace hgood⟩, h.info⟩

theorem PlanOf.good {entries : List Entry} {encrypted : Bool} {p : Plan}
    (h : PlanOf Good env entries encrypted p) : ∀ it ∈ p.ordered, Good it.obj := by
  obtain ⟨ids, limit, hinv⟩ := h.inv
  exact fun it hit => (hinv.good it hit).2

theorem PlanOf.isSensor {entries : List Entry} {encrypted : Bool} {p : Plan}
    (h : PlanOf Good env entries encrypted p) :
    ∀ it ∈ p.ordered, IsSensor entries it.entryIndex = true := by
  intro it hit
  obtain ⟨ids, limit, hinv⟩ := h.inv
  have hindex := hinv.indices.subset (List.mem_map_of_mem hit)
  exact (List.mem_filter.mp hindex).2

/-! ## Planning -/

/-- A list of entries is planned once every advertised one has been read. -/
theorem reads_of_planEntries {enc : Entry → Probe → Except JsError Obj}
    {read : ℕ → Except JsError Obj} {entries rest : List Entry} {every i : ℕ}
    {sensors sensors' : List Sensor} {writable writable' : List Writable}
    (hrest : entries.drop i = rest)
    (hrun : planEntries enc read every rest i sensors writable = .ok (sensors', writable')) :
    ∀ j, i ≤ j → IsSensor entries j = true → ∃ o, read j = .ok o := by
  induction rest generalizing i sensors writable with
  | nil =>
      intro j hj hsensor
      have hlength : entries.length ≤ i := List.drop_eq_nil_iff.mp hrest
      rw [IsSensor, List.getElem?_eq_none (by omega)] at hsensor
      cases hsensor
  | cons e rest ih =>
      have hentry : entries[i]? = some e := by
        rw [← Nat.add_zero i, ← List.getElem?_drop, hrest]
        rfl
      have hnext : entries.drop (i + 1) = rest := by
        rw [← List.drop_drop, hrest]
        rfl
      intro j hj hsensor
      unfold planEntries at hrun
      split at hrun
      · cases hrun
      split at hrun
      · rename_i hset
        split at hrun
        · cases hrun
        · rcases Nat.eq_or_lt_of_le hj with rfl | hlater
          · rw [IsSensor, hentry] at hsensor
            simp [hset] at hsensor
          · exact ih hnext hrun j hlater hsensor
      · split at hrun
        · cases hrun
        · rename_i o ho
          rcases Nat.eq_or_lt_of_le hj with rfl | hlater
          · exact ⟨o, ho⟩
          · exact ih hnext hrun j hlater hsensor

/-- Every sensor keeps the id that it had when the plan was made. -/
theorem planOf_built {opts : SetupOpts} {object : ℕ} {o : Outside} {next : St}
    (hreads : Reads Good env opts.advertise) (h : Built env opts object o next) :
    PlanOf Good env next.entries next.key.isSome next.plan := by
  obtain ⟨sensors, writable, decl, n, hentries, -⟩ := planPacket_ok h.plan
  rw [h.entries]
  have hencodes : Encodes Good opts.advertise
      (fun i => ((env.reading (o.calls + 1) i).toOption.elim 0 Obj.id))
      (env.reading (o.calls + 1)) := by
    intro i hsensor
    obtain ⟨b, hb⟩ := reads_of_planEntries List.drop_zero hentries i (Nat.zero_le i) hsensor
    exact ⟨b, hb, by simp [hb, Except.toOption], hreads.reading hsensor hb⟩
  exact ⟨⟨_, _, planInv_planPacket hencodes h.plan⟩, (told_planPacket h.plan).1⟩

/-! ## What is said -/

/-- What the packets of a device are made of and framed under. -/
structure Voice where
  key : Option Bytes
  mac : Bytes
  entries : List Entry
  plan : Plan

def voice (st : St) : Voice where
  key := st.key
  mac := st.mac
  entries := st.entries
  plan := st.plan

/-- The same entries are declared, and the same sensors have the same places. -/
structure Alike (p p' : Plan) : Prop where
  writable : p'.writable = p.writable
  place : p'.ordered.map Sensor.place = p.ordered.map Sensor.place

/-- Service data of a device that speaks with `v`: of its plan as it is or was, or the fallback. -/
inductive Says (Good : Obj → Prop) (env : Env) (v : Voice) (sd : Bytes) : Prop
  | planned (p : Plan) (hplan : PlanOf Good env v.entries v.key.isSome p) (halike : Alike p v.plan)
      (hsd : sd = plannedBytes p)
  | fallback (id : UInt8) (hsd : sd = [v.plan.info, PKT_ID, id])

/-- What the radio is handed. -/
def Spoken (Good : Obj → Prop) (env : Env) (v : Voice) (frame : Bytes) : Prop :=
  ∃ sd, Says Good env v sd ∧ Framed env v.key v.mac sd frame

/-- The device seals under its own address. -/
def Voice.Own (env : Env) (v : Voice) : Prop := v.key.isSome = true → v.mac = macBytes env.address

/-- A packet of the device as it was then. -/
structure Genuine (Good : Obj → Prop) (env : Env) (h : Handed) : Prop where
  own : (voice h.st).Own env
  plan : PlanOf Good env h.st.entries h.st.key.isSome h.st.plan
  spoken : Spoken Good env (voice h.st) h.sd

structure Core where
  handed : List Handed
  lastSd : Option Bytes
  voice : Voice

def core (w : World) : Core where
  handed := w.handed
  lastSd := w.st.lastSd
  voice := voice w.st

theorem core_sealKeeps : SealKeeps core where

theorem core_rateKeeps : RateKeeps core where

theorem core_serveKeeps : ServeKeeps core where

theorem core_writeKeeps : WriteKeeps core where

/-- What has been handed over is genuine, and what a change of the rate would repeat is still
something to say. -/
structure Outspoken (Good : Obj → Prop) (env : Env) (c : Core) : Prop where
  reads : Reads Good env c.voice.entries
  plan : PlanOf Good env c.voice.entries c.voice.key.isSome c.voice.plan
  own : c.voice.Own env
  handed : ∀ h ∈ c.handed, Genuine Good env h
  cached : ∀ sd, c.lastSd = some sd → Spoken Good env c.voice sd

/-- Readings that move leave what was said as something to say. -/
theorem Says.moved {v : Voice} {sd : Bytes} (h : Says Good env v sd) {p : Plan}
    (halike : Alike v.plan p) (hinfo : p.info = v.plan.info) :
    Says Good env { v with plan := p } sd := by
  cases h with
  | planned p' hplan halike' hsd =>
      exact .planned p' hplan
        ⟨halike.writable.trans halike'.writable, halike.place.trans halike'.place⟩ hsd
  | fallback id hsd => exact .fallback id (hinfo ▸ hsd)

theorem Outspoken.moved {c : Core} (h : Outspoken Good env c) (pkt : UInt8) {rev : Option UInt8}
    {ordered : List Sensor} (hrev : rev.isSome = c.voice.plan.rev.isSome)
    (hplace : ordered.map Sensor.place = c.voice.plan.ordered.map Sensor.place)
    (hgood : ∀ it ∈ ordered, Good it.obj) :
    Outspoken Good env { c with
      voice := { c.voice with
        plan := { c.voice.plan with pkt := pkt, rev := rev, ordered := ordered } } } :=
  { h with
    plan := h.plan.moved hrev hplace hgood
    cached := by
      intro sd hsd
      obtain ⟨pt, hsays, hframed⟩ := h.cached sd hsd
      exact ⟨pt, hsays.moved ⟨rfl, hplace⟩ rfl, hframed⟩ }

theorem Outspoken.setOrdered (h : Outspoken Good env (core w)) {ordered : List Sensor}
    (hplace : ordered.map Sensor.place = w.st.plan.ordered.map Sensor.place)
    (hgood : ∀ it ∈ ordered, Good it.obj) : Outspoken Good env (core (w.setOrdered ordered)) :=
  h.moved w.st.plan.pkt (show w.st.plan.rev.isSome = _ from rfl) hplace hgood

/-- Moving the times of the readings moves nothing that is said. -/
theorem Outspoken.retimed (h : Outspoken Good env (core w)) {f : Sensor → Sensor}
    (hplace : ∀ it, (f it).place = it.place) (hobj : ∀ it, (f it).obj = it.obj) :
    Outspoken Good env (core (w.setOrdered (w.st.plan.ordered.map f))) := by
  refine h.setOrdered ?_ ?_
  · rw [List.map_map]
    exact List.map_congr_left fun it _ => hplace it
  · intro it hit
    obtain ⟨it₀, hit₀, rfl⟩ := List.mem_map.mp hit
    rw [hobj]
    exact h.plan.good it₀ hit₀

/-! ## Handing over -/

theorem Outspoken.hand (h : Outspoken Good env (core w)) {sd : Bytes}
    (hsd : Spoken Good env (voice w.st) sd) (opts : AdvOptions) (accepted : Bool) :
    Outspoken Good env (core (w.hand sd opts accepted)) :=
  { h with handed := Runs.forall_mem_concat.mpr ⟨h.handed, h.own, h.plan, hsd⟩ }

theorem Outspoken.onAir (h : Outspoken Good env (core w)) {sd : Bytes}
    (hsd : Spoken Good env (voice w.st) sd) : Outspoken Good env (core (w.onAir sd)) :=
  { h with
    cached := by
      rintro _ ⟨⟩
      exact hsd }

theorem Outspoken.publish {sd : Bytes} (h : Outspoken Good env (core w))
    (hsd : Spoken Good env (voice w.st) sd) :
    Outspoken Good env (core (left (publish env sd) w)) := by
  have hrefused : Outspoken Good env (core (refused sd w)) := h.hand (w := w.asked) hsd _ false
  -- the fallback is something to say as well, sealed under what the device had all along
  have hsmall : ∀ small u, sealIfKeyed env (fallback w) (refused sd w) = .ok small u →
      Spoken Good env (voice u.st) small := by
    intro small u hsealed
    have hvoice : voice u.st = voice w.st :=
      congrArg Core.voice ((core_sealKeeps.sealIfKeyed _).ok (s := refused sd w) hsealed)
    rw [hvoice]
    exact ⟨fallback w, .fallback _ rfl, sealIfKeyed_ok (w := refused sd w) hsealed⟩
  refine left_publish (I := fun u => Outspoken Good env (core u)) (fun _ => ?_) (fun _ => ?_) ?_ ?_
  · exact (h.hand (w := w.asked) hsd _ true).onAir hsd
  · rw [(core_sealKeeps.sealIfKeyed _).left_eq (refused sd w)]
    exact hrefused
  · intro small u _ hsealed hu _
    exact (hu.hand (w := u.asked) (hsmall small u hsealed) _ true).onAir (hsmall small u hsealed)
  · intro small u hsealed hu
    exact { hu.hand (w := u.asked) (hsmall small u hsealed) _ false with cached := by rintro _ ⟨⟩ }

theorem good_reading (h : Outspoken Good env (core w)) (n : ℕ) :
    ∀ it ∈ w.st.plan.ordered, ∀ o, env.reading n it.entryIndex = .ok o → Good o := by
  intro it hit o ho
  exact h.reads.reading (h.plan.isSensor it hit) ho

/-- A read pass captures as far as it gets. -/
theorem Outspoken.readDue (h : Outspoken Good env (core w)) (n : ℕ) (now : ℤ) :
    Outspoken Good env
      (core (w.setOrdered (Device.readDue (env.reading n) now w.st.plan.ordered).1)) :=
  h.setOrdered (map_readDue place_readSensor _ now _) (good_readDue h.plan.good (good_reading h n))

theorem place_renderReads (r : Render) (sensors : List Sensor) :
    (renderReads r sensors).1.map Sensor.place = sensors.map Sensor.place := by
  unfold renderReads
  cases r.source with
  | none => rfl
  | some read => exact map_readDue place_readSensor read r.now sensors

theorem good_renderReads (h : Outspoken Good env (core w)) (cached : Bool) :
    ∀ it ∈ (renderReads (renderOf env cached w) w.st.plan.ordered).1, Good it.obj := by
  cases cached with
  | true => exact h.plan.good
  | false => exact good_readDue h.plan.good (good_reading h (w.calls + 1))

theorem Outspoken.rendered (h : Outspoken Good env (core w)) (cached : Bool) :
    Outspoken Good env (core (renderedWorld env cached w)) :=
  h.moved _ (Option.isSome_map ..) (place_renderReads (renderOf env cached w) _)
    (good_renderReads h cached)

/-- A packet is built from the plan as it is by then. -/
theorem Outspoken.refresh (h : Outspoken Good env (core w)) (cached : Bool) :
    Outspoken Good env (core (left (refreshAdvertising env cached) w)) := by
  have hdrawn := h.rendered cached
  cases hrendered : Firmware.rendered env cached w with
  | error x =>
      rw [refreshAdvertising, left_error (bind_of_error (rebuild_of_error hrendered))]
      exact hdrawn
  | ok sd =>
      have hbuilt : buildPlan (renderedWorld env cached w).st.plan = .ok sd := by
        unfold Firmware.rendered at hrendered
        cases hreads : (renderReads (renderOf env cached w) w.st.plan.ordered).2 with
        | error x =>
            rw [hreads] at hrendered
            cases hrendered
        | ok moved =>
            rw [hreads] at hrendered
            exact hrendered
      refine left_bind (I := fun u => Outspoken Good env (core u)) ?_ ?_
      · rw [left_congr (rebuild_of_ok hrendered), (core_sealKeeps.sealIfKeyed sd).left_eq]
        exact hdrawn
      intro frame u hrebuilt hu
      rw [rebuild_of_ok hrendered] at hrebuilt
      refine hu.publish ?_
      rw [show voice u.st = voice (renderedWorld env cached w).st from
        congrArg Core.voice ((core_sealKeeps.sealIfKeyed sd).ok hrebuilt)]
      exact ⟨sd, .planned _ hdrawn.plan ⟨rfl, rfl⟩ (buildPlan_ok hbuilt), sealIfKeyed_ok hrebuilt⟩

/-! ## Events -/

variable (Good env) in
/-- A program after which a device says what it should if it did before. -/
abbrev Discreet {α : Type} (p : Fw α) : Prop :=
  Frame (Upholds fun w => Outspoken Good env (core w)) p

theorem discreet_of_keeps {α : Type} {p : Fw α} (h : Frame (Keeps core) p) : Discreet Good env p :=
  h.mono fun _ _ hkeeps => hkeeps.upholds

theorem discreet_refresh (cached : Bool) : Discreet Good env (refreshAdvertising env cached) :=
  fun _ h => h.refresh cached

theorem discreet_republishRate : Discreet Good env (republishRate env) := by
  intro w h
  refine left_bind (I := fun u => Outspoken Good env (core u)) h ?_
  rintro _ _ ⟨⟩ -
  cases hlast : w.st.lastSd with
  | none =>
      simp only [id_eq, hlast]
      exact h.refresh false
  | some sd =>
      simp only [id_eq, hlast]
      exact h.publish (h.cached sd hlast)

theorem sensors_nextDue (now interval : ℤ) (sensors : List Sensor) :
    (nextDue now interval sensors).1 = sensors.map (notAhead now) := by
  induction sensors with
  | nil => rfl
  | cons it rest ih => simp only [nextDue, List.map_cons, ih]

theorem discreet_schedule : Discreet Good env (schedule env) := by
  refine ScheduleMoves.schedule ⟨fun _ h => h, fun w => ?_, fun w now interval h => ?_,
    fun _ _ h => h⟩
  · refine Keeps.upholds (f := core) ?_
    unfold Keeps World.clearTimer
    split <;> rfl
  · rw [sensors_nextDue]
    refine h.retimed (fun it => ?_) fun it => ?_ <;>
      unfold notAhead <;> split <;> rfl

theorem discreet_readSensors : Discreet Good env (readSensors env) := by
  refine Frame.bind (discreet_of_keeps (keeps_getTime fun _ => rfl)) fun now => ?_
  refine Frame.bind (fun w h => h.readDue (w := w.asked) w.calls now) fun moved => ?_
  cases moved with
  | error x => exact Frame.throw x
  | ok moved => exact Frame.pure moved

theorem discreet_tick : Discreet Good env (tick env) := by
  refine frame_tick ?_ discreet_schedule fun _ h => h
  exact Frame.bind discreet_readSensors fun moved =>
    Frame.bind (Frame.doIf (discreet_refresh true)) fun _ => Frame.pure moved

theorem discreet_reaction : Discreet Good env (reaction env) :=
  frame_reaction (discreet_of_keeps core_rateKeeps.goFast) discreet_tick discreet_republishRate

theorem discreet_guarded {p : Fw Unit} (h : Discreet Good env p) :
    Discreet Good env (guarded env p) :=
  Frame.attempt h fun e => discreet_of_keeps (keeps_report (fun _ => rfl) e)

/-- A refresh, and what follows it in an `update()` and in a `publishChange`. -/
theorem discreet_refreshAndSchedule : Discreet Good env (do
    refreshAdvertising env false
    schedule env
    update World.noteReturn) :=
  Frame.bind (discreet_refresh false) fun _ =>
    Frame.bind discreet_schedule fun _ => Frame.update fun _ h => h

theorem discreet_updateNow : Discreet Good env (updateNow env) :=
  Frame.bind (Frame.update fun _ h => h.retimed (fun _ => rfl) fun _ => rfl) fun _ =>
    discreet_refreshAndSchedule

theorem discreet_runJob (job : Job) : Discreet Good env (runJob env job) := by
  cases job with
  | wake =>
      refine Frame.attempt (Frame.bind discreet_tick fun _ => Frame.pure ()) fun e => ?_
      exact Frame.bind (discreet_of_keeps (keeps_report (fun _ => rfl) e)) fun _ =>
        Frame.update fun _ h => h
  | goIdle => exact Frame.bind (Frame.update fun _ h => h) fun _ => discreet_republishRate
  | publishChange =>
      refine discreet_guarded ?_
      refine Frame.bind (Frame.update fun _ h => h) fun _ => ?_
      refine Frame.bind (Frame.update fun _ h => h) fun _ => ?_
      refine Frame.bind (Frame.look id) fun w => ?_
      exact Frame.bind (discreet_of_keeps (core_serveKeeps.publishReads _)) fun _ =>
        discreet_refreshAndSchedule

theorem discreet_setAdvertisingInterval (ms : ℤ) :
    Discreet Good env (setAdvertisingInterval env ms) := by
  unfold setAdvertisingInterval
  split
  · exact Frame.throw _
  · refine Frame.bind (Frame.update fun _ h => h) fun _ => ?_
    refine Frame.bind (Frame.update fun w h => h.retimed (fun it => ?_) fun it => ?_) fun _ => ?_
    · unfold inheritInterval
      split <;> rfl
    · unfold inheritInterval
      split <;> rfl
    refine Frame.bind discreet_schedule fun _ => ?_
    refine Frame.bind (Frame.look id) fun w => ?_
    refine Frame.bind (Frame.doIf ?_) fun _ => Frame.pure _
    exact Frame.bind (Frame.update fun _ h => h) fun _ => discreet_republishRate

theorem discreet_onWrite (k : ℕ) (data : Bytes) : Discreet Good env (onWrite env k data) :=
  frame_onWrite (fun _ _ hkeeps => hkeeps.upholds) core_writeKeeps discreet_reaction k data

theorem Outspoken.react (h : Outspoken Good env (core w)) (event : Event) :
    Outspoken Good env (core (react env w event)) := by
  have hkept : ∀ {u : World}, core u = core w → Outspoken Good env (core u) := by
    intro u hu
    rw [hu]
    exact h
  cases event with
  | update => exact discreet_updateNow w h
  | changed => exact hkept ((keeps_changed fun _ => rfl).left_eq w)
  | setAdvertisingInterval ms => exact discreet_setAdvertisingInterval ms w h
  | setFastTimeout ms => exact hkept ((keeps_setFastTimeout (fun _ _ => rfl) ms).left_eq w)
  | write k data => exact discreet_onWrite k data w h
  | challenge data =>
      simp only [Firmware.react]
      split
      · exact hkept ((core_writeKeeps.onChallenge data).left_eq w)
      · exact h
  | connect =>
      simp only [Firmware.react]
      split
      · refine discreet_guarded ?_ w h
        exact Frame.bind (discreet_of_keeps core_rateKeeps.goFast) fun _ =>
          Frame.doIf discreet_republishRate
      · exact h
  | disconnect =>
      simp only [Firmware.react]
      split
      · exact hkept ((keeps_guarded (fun _ => rfl)
          (core_rateKeeps.goIdleAfterTimeout fun _ => rfl)).left_eq w)
      · exact h
  | fire handle =>
      simp only [Firmware.react, fire]
      split
      · exact h
      · exact discreet_runJob _ (w.clearTimeout handle) h
  | turn => exact hkept (core_serveKeeps.runAll (fun _ _ => rfl) _ _)

/-! ## `setup()` -/

/-- What a device has handed over is genuine, and what it will hand over will be. -/
def BoardOutspoken (Good : Obj → Prop) (env : Env) (b : Board) : Prop :=
  (∀ h ∈ b.handed, Genuine Good env h) ∧
    ∀ st, b.st = some st → Outspoken Good env (core (b.world st))

theorem boardOutspoken_board (h : Outspoken Good env (core w)) : BoardOutspoken Good env w.board :=
  ⟨h.handed, by
    rintro st ⟨⟩
    exact h⟩

theorem own_buildNext {opts : SetupOpts} {object : ℕ} {o : Outside} {next : St}
    (h : buildNext env opts object o = .ok next) : (voice next).Own env := by
  obtain ⟨-, -, marks, -, hresumed⟩ := buildNext_ok h
  intro hkey
  exact hresumed.mac.trans (if_pos hkey)

theorem Outspoken.install (h : Outspoken Good env (core w)) (opts : SetupOpts) :
    Outspoken Good env (core (left (install env opts) w)) := by
  rw [install_eq]
  refine Frame.bind (R := Upholds fun w => Outspoken Good env (core w)) ?_ (fun _ => ?_) w h
  · exact discreet_of_keeps (core_serveKeeps.claim (fun _ _ => rfl) opts)
  · exact Frame.always (discreet_refresh false)
      (Frame.bind discreet_schedule fun _ => Frame.update fun _ h => h)

theorem BoardOutspoken.setup {b : Board} {opts : SetupOpts} (h : BoardOutspoken Good env b)
    (hreads : Reads Good env opts.advertise) :
    BoardOutspoken Good env (left (setup env opts) b) := by
  cases hnext : buildNext env opts b.nextObject b.toOutside with
  | error e =>
      rw [left_setup_of_error hnext]
      exact ⟨h.1, fun st hst => h.2 st hst⟩
  | ok next =>
      have hbuilt := built_of_buildNext hnext
      have hswapped : Outspoken Good env (core (b.swap next)) :=
        { reads := by
            show Reads Good env next.entries
            rw [hbuilt.entries]
            exact hreads
          plan := planOf_built hreads hbuilt
          own := own_buildNext hnext
          handed := by
            show ∀ h ∈ (b.swap next).handed, _
            rw [handed_swap]
            exact h.1
          cached := by
            intro sd hsd
            have hnone : next.lastSd = some sd := hsd
            rw [hbuilt.lastSd] at hnone
            cases hnone }
      rw [left_setup_of_ok hnext]
      exact boardOutspoken_board (hswapped.install opts)

/-- In every run from power-on, whatever throws, each packet handed to the radio is one of its
device as it was then. -/
theorem genuine_run (env : Env) (file : Option MarksFile) (events : List BoardEvent)
    (hreads : ∀ opts, .setup opts ∈ events → Reads Good env opts.advertise) :
    ∀ h ∈ (Runs.run (Board.step env) (Board.powerOn file) events).handed, Genuine Good env h := by
  have hstep : ∀ (b : Board) (event : BoardEvent), BoardOutspoken Good env b →
      (∀ opts, event = .setup opts → Reads Good env opts.advertise) →
      BoardOutspoken Good env (Board.step env b event) := by
    intro b event h hevent
    cases event with
    | setup opts => exact h.setup (hevent opts rfl)
    | on event =>
        unfold Board.step
        cases hst : b.st with
        | none => exact h
        | some st => exact boardOutspoken_board ((h.2 st hst).react event)
  have hstart : BoardOutspoken Good env (Board.powerOn file) :=
    ⟨fun h hh => (by cases hh), fun st hst => by cases hst⟩
  refine (Runs.run_invariant hstep hstart (Runs.Along.of_forall ?_)).1
  rintro event hevent opts rfl
  exact hreads opts hevent

end BTHomeWritable.Firmware
