import BTHomeWritable.Firmware.OnAir

/-!
# The advertising rate

`Rate` is what the rate is for: fast from a connect or an accepted write on,
until a timeout is over that a disconnect starts anew, and idle at the interval
last set otherwise.  The module keeps no phase; it has `fastTimer`, and it
compares `advInterval` with two intervals.

* `dial` is what a device has of it, and `Tuned` says that the radio was last
  handed the interval `st` has.  A program is `Steady` where it keeps both; what
  touches neither keeps `aloft`.
* `InTune` is what the phase and the dial have in common after every event that
  meets `KeepsRate`, and that the return to idle is pending where `Rate` is
  waiting for it.  Most events are `InTune.quiet`; those that move the rate have
  a lemma each, `InTune.connect` to `InTune.fire`.
* `inTune_setup` is the start, `InTune.react` the step, and `radio_follows_rate`
  the run.

`KeepsRate` sets two things aside: an interval that is set while nothing tells
the module in which phase it is (`slow_while_connected`), and a `tick` that throws
after an accepted write has moved the rate and before the radio has heard of it.
-/

namespace BTHomeWritable.Firmware

open Device Throwing

variable {env : Env} {w : World}

/-! ## What the rate should be -/

inductive Phase where
  | idle
  | fast
  /-- Idle again when a timeout of this length is over. -/
  | cooling (window : ℤ)
  deriving DecidableEq

/-- The phase, and the idle interval and the fast timeout last set. -/
structure Rate where
  phase : Phase
  idle : ℤ
  timeout : ℤ

namespace Rate

variable (rate : Rate)

/-- The interval the radio should be at. -/
def interval (fastInterval : ℤ) : ℤ :=
  match rate.phase with
  | .idle => rate.idle
  | .fast | .cooling _ => fastInterval

/-- What `setup(opts)` sets. -/
def start (opts : SetupOpts) : Rate where
  phase := .idle
  idle := orElse opts.interval 2000
  timeout := opts.fastTimeout.getD 30000

def hurry : Rate := { rate with phase := .fast }

def relax : Rate :=
  match rate.phase with
  | .idle => rate
  | .fast | .cooling _ => { rate with phase := .cooling rate.timeout }

open Classical in
/-- What an event that happens to `w` makes of the rate. -/
noncomputable def after (env : Env) (w : World) : Event → Rate
  | .connect => rate.hurry
  | .write k data => if ∃ u, Takes env k data w u then rate.hurry else rate
  | .disconnect => rate.relax
  | .fire handle =>
      if (w.timers.find? (·.handle = handle)).map (·.job) = some .goIdle then
        { rate with phase := .idle }
      else rate
  | .setAdvertisingInterval ms => if 20 ≤ ms ∧ ms ≤ 10000 then { rate with idle := ms } else rate
  | .setFastTimeout ms => if 0 ≤ ms then { rate with timeout := ms } else rate
  | .update | .changed | .challenge _ | .turn => rate

end Rate

/-- A device and the rate it should be at. -/
noncomputable def rateStep (env : Env) (s : Rate × World) (event : Event) : Rate × World :=
  (s.1.after env s.2 event, react env s.2 event)

/-- The interval of the packet most recently handed to the radio. -/
def World.radioInterval (w : World) : Option ℤ := w.handed.getLast?.map (·.opts.interval)

theorem World.radioInterval_hand (w : World) (sd : Bytes) (opts : AdvOptions) (accepted : Bool) :
    (w.hand sd opts accepted).radioInterval = some opts.interval := by
  simp [World.radioInterval, World.hand]

/-- The event is not one that the rate gets lost in. -/
def KeepsRate (env : Env) (s : Rate × World) : Event → Prop
  | .setAdvertisingInterval ms => 20 ≤ ms ∧ ms ≤ 10000 →
      (s.1.phase = .fast → ms = s.2.st.fastInterval) ∧
        (s.1.phase = .idle → s.2.st.fastTimer.isSome = true → ms = s.1.idle)
  | .write k data => ∀ u, Takes env k data s.2 u → s.2.st.advInterval ≠ s.2.st.fastInterval →
      Returns (tick env) (left goFast u)
  | .update | .changed | .setFastTimeout _ | .challenge _ | .connect | .disconnect | .fire _
  | .turn => True

/-- The return to idle is pending where the rate waits for it, and not where it is to stay fast. -/
def Phase.Awaits : Phase → List Timer → Prop
  | .idle, _ => True
  | .fast, pending => pending = []
  | .cooling window, pending => ∃ t, pending = [t] ∧ t.delay = window

/-! ## What a device is tuned to -/

/-- The intervals, and whether the device hears of connections. -/
def dial (w : World) : ℤ × ℤ × ℤ × ℤ × Bool :=
  (w.st.advInterval, w.st.interval, w.st.fastInterval, w.st.fastTimeout, w.listening)

/-- The radio has been handed the interval that is set, with a packet that can be handed over
again. -/
structure Tuned (w : World) : Prop where
  radio : w.radioInterval = some w.st.advInterval
  cached : w.st.lastSd ≠ none

/-- The intervals stand, and what was tuned still is. -/
def Steady (w w' : World) : Prop := dial w' = dial w ∧ (Tuned w → Tuned w')

instance : IsPreorder World Steady where
  refl _ := ⟨rfl, id⟩
  trans _ _ _ h h' := ⟨h'.1.trans h.1, h'.2 ∘ h.2⟩

/-- What tuning is about, as long as no packet is handed over. -/
def aloft (w : World) : (ℤ × ℤ × ℤ × ℤ × Bool) × List Handed × Option Bytes :=
  (dial w, w.handed, w.st.lastSd)

theorem steady_of_aloft {w' : World} (h : aloft w' = aloft w) : Steady w w' := by
  simp only [aloft, Prod.mk.injEq] at h
  obtain ⟨hdial, hhanded, hcached⟩ := h
  refine ⟨hdial, fun htuned => ⟨?_, ?_⟩⟩
  · have hinterval : w'.st.advInterval = w.st.advInterval := congrArg Prod.fst hdial
    rw [World.radioInterval, hhanded, hinterval]
    exact htuned.radio
  · rw [hcached]
    exact htuned.cached

theorem steady_of_keeps {α : Type} {p : Fw α} (h : Frame (Keeps aloft) p) : Frame Steady p :=
  h.mono fun _ _ => steady_of_aloft

theorem aloft_rebuildKeeps : RebuildKeeps aloft where

theorem aloft_scheduleKeeps : ScheduleKeeps aloft where

theorem aloft_serveKeeps : ServeKeeps aloft where

theorem aloft_writeKeeps : WriteKeeps aloft where

theorem aloft_readSensors : Frame (Keeps aloft) (readSensors env) :=
  keeps_readSensors (fun _ => rfl) fun _ _ _ => rfl

/-- A `tick` that has found nothing has left the radio alone. -/
theorem tick_passes {u : World} (h : tick env w = .ok false u) : aloft u = aloft w := by
  obtain ⟨v, hsensors, rfl⟩ := tick_rested h
  exact ((aloft_scheduleKeeps).schedule.left_eq v).trans ((aloft_readSensors).ok hsensors)

section Accepting

/-- The radio accepts every packet. -/
def RadioAccepts (env : Env) : Prop :=
  ∀ n sd opts, env.throws n (.setAdvertising sd opts) = none

variable (hradio : RadioAccepts env)

include hradio

/-- Whatever is published, the radio is tuned by it. -/
theorem publish_tunes (sd : Bytes) (w : World) :
    ∃ u, publish env sd w = .ok () u ∧ dial u = dial w ∧ Tuned u := by
  refine ⟨_, publish_of_accepts (hradio _ _ _), rfl, ?_, ?_⟩
  · exact World.radioInterval_hand w.asked sd (advOptions w.st) true
  · rintro ⟨⟩

theorem steady_refresh (cached : Bool) : Frame Steady (refreshAdvertising env cached) := by
  refine Frame.bind (steady_of_keeps ((aloft_rebuildKeeps).rebuild cached)) fun sd w => ?_
  obtain ⟨u, hrun, hdial, htuned⟩ := publish_tunes hradio sd w
  rw [left_ok hrun]
  exact ⟨hdial, fun _ => htuned⟩

theorem republish_tunes (hcached : w.st.lastSd ≠ none) :
    ∃ u, republishRate env w = .ok () u ∧ dial u = dial w ∧ Tuned u := by
  obtain ⟨sd, hsd⟩ := Option.ne_none_iff_exists'.mp hcached
  obtain ⟨u, hrun, hdial, htuned⟩ := publish_tunes hradio sd w
  refine ⟨u, ?_, hdial, htuned⟩
  unfold republishRate
  rw [look_bind, id_eq, hsd]
  exact hrun

theorem steady_readAndRefresh : Frame Steady (readAndRefresh env) :=
  Frame.bind (steady_of_keeps aloft_readSensors) fun _ =>
    Frame.bind (Frame.doIf (steady_refresh hradio true)) fun _ => Frame.pure _

theorem steady_tick : Frame Steady (tick env) :=
  frame_tick (steady_readAndRefresh hradio) (steady_of_keeps (aloft_scheduleKeeps).schedule)
    fun _ => steady_of_aloft rfl

theorem steady_wake : Frame Steady (wake env) := by
  refine Frame.attempt (Frame.bind (steady_tick hradio) fun _ => Frame.pure ()) fun e => ?_
  refine Frame.bind (steady_of_keeps (keeps_report (fun _ => rfl) e)) fun _ => ?_
  exact Frame.update fun _ => steady_of_aloft rfl

theorem steady_updateNow : Frame Steady (updateNow env) := by
  refine Frame.bind (Frame.update fun _ => steady_of_aloft rfl) fun _ => ?_
  refine Frame.bind (steady_refresh hradio false) fun _ => ?_
  refine Frame.bind (steady_of_keeps (aloft_scheduleKeeps).schedule) fun _ => ?_
  exact Frame.update fun _ => steady_of_aloft rfl

theorem steady_publishChange : Frame Steady (publishChange env) := by
  refine Frame.bind (Frame.update fun _ => steady_of_aloft rfl) fun _ => ?_
  refine Frame.bind (Frame.update fun _ => steady_of_aloft rfl) fun _ => ?_
  refine Frame.bind (Frame.look id) fun w => ?_
  refine Frame.bind (steady_of_keeps ((aloft_serveKeeps).publishReads _)) fun _ => ?_
  refine Frame.bind (steady_refresh hradio false) fun _ => ?_
  refine Frame.bind (steady_of_keeps (aloft_scheduleKeeps).schedule) fun _ => ?_
  exact Frame.update fun _ => steady_of_aloft rfl

/-! ## What moves the rate -/

/-- A `tick` that has published has tuned the radio. -/
theorem tick_tunes {u : World} (h : tick env w = .ok true u) : dial u = dial w ∧ Tuned u := by
  obtain ⟨moved, a, hsensors, h⟩ := bind_ok.mp h
  obtain ⟨_, b, hrefresh, h⟩ := bind_ok.mp h
  obtain ⟨_, c, hscheduled, h⟩ := bind_ok.mp h
  obtain ⟨_, _, ⟨⟩, h⟩ := bind_ok.mp h
  obtain ⟨rfl, rfl⟩ := EStateM.Result.ok.inj h
  obtain ⟨sd, v, hbuilt, hput⟩ := bind_ok.mp hrefresh
  obtain ⟨b', hrun, hdial, htuned⟩ := publish_tunes hradio sd v
  obtain ⟨-, rfl⟩ := EStateM.Result.ok.inj (hput.symm.trans hrun)
  have hread : dial a = dial w := congrArg Prod.fst ((aloft_readSensors).ok hsensors)
  have hlast : aloft c = aloft b := (aloft_scheduleKeeps).schedule.ok hscheduled
  have hbuilt' : dial v = dial a :=
    congrArg Prod.fst (((aloft_rebuildKeeps).rebuild true).ok hbuilt)
  have hsteady : Steady b c.noteReturn := steady_of_aloft hlast
  refine ⟨?_, hsteady.2 htuned⟩
  calc dial c
      = dial b := congrArg Prod.fst hlast
    _ = dial v := hdial
    _ = dial a := hbuilt'
    _ = dial w := hread

end Accepting

theorem World.clearFastTimer_eq (w : World) :
    ∃ timers, w.clearFastTimer =
      { w with timers := timers, st := { w.st with fastTimer := none } } := by
  unfold World.clearFastTimer
  cases h : w.st.fastTimer with
  | none =>
      refine ⟨w.timers, ?_⟩
      show w = { w with timers := w.timers, st := { w.st with fastTimer := none } }
      rw [← h]
  | some handle => exact ⟨_, rfl⟩

/-- What `goFast` leaves. -/
def World.speedUp (w : World) : World := w.clearFastTimer.setAdvInterval w.st.fastInterval

theorem goFast_eq (w : World) :
    goFast w = .ok (decide (w.st.advInterval ≠ w.st.fastInterval)) w.speedUp := by
  obtain ⟨timers, hcleared⟩ := w.clearFastTimer_eq
  unfold goFast World.speedUp
  rw [update_bind, look_bind, id_eq, hcleared]
  by_cases h : w.st.advInterval = w.st.fastInterval
  · simp only [h, if_true, ne_eq, not_true_eq_false, decide_false, pure_apply, World.setAdvInterval]
  · simp only [h, if_false, ne_eq, not_false_eq_true, decide_true]
    rfl

/-- The dial of a device that has gone fast. -/
def spedDial (w : World) : ℤ × ℤ × ℤ × ℤ × Bool :=
  (w.st.fastInterval, w.st.interval, w.st.fastInterval, w.st.fastTimeout, w.listening)

theorem aloft_speedUp (w : World) : aloft w.speedUp = (spedDial w, w.handed, w.st.lastSd) := by
  obtain ⟨timers, hcleared⟩ := w.clearFastTimer_eq
  unfold World.speedUp
  rw [hcleared]
  rfl

/-- A device that is at its fast interval already stays tuned. -/
theorem Tuned.speedUp (h : Tuned w) (hfast : w.st.advInterval = w.st.fastInterval) :
    Tuned w.speedUp := by
  have haloft := aloft_speedUp w
  simp only [aloft, spedDial, dial, Prod.mk.injEq] at haloft
  obtain ⟨⟨hinterval, -⟩, hhanded, hcached⟩ := haloft
  refine ⟨?_, ?_⟩
  · rw [World.radioInterval, hhanded, hinterval, ← hfast]
    exact h.radio
  · rw [hcached]
    exact h.cached

theorem Tuned.onConnect (hradio : RadioAccepts env) (h : Tuned w) :
    dial (left (onConnect env) w) = spedDial w ∧ Tuned (left (onConnect env) w) := by
  have hsped : dial w.speedUp = spedDial w := congrArg Prod.fst (aloft_speedUp w)
  unfold Firmware.onConnect
  rw [left_bind_of_ok (goFast_eq w)]
  by_cases hfast : w.st.advInterval = w.st.fastInterval
  · simp only [hfast, ne_eq, not_true_eq_false, decide_false, doIf, Bool.false_eq_true, if_false]
    exact ⟨hsped, h.speedUp hfast⟩
  · have hcached : w.speedUp.st.lastSd ≠ none := by
      have hkept : w.speedUp.st.lastSd = w.st.lastSd := congrArg (·.2.2) (aloft_speedUp w)
      rw [hkept]
      exact h.cached
    obtain ⟨u, hrun, hdial, htuned⟩ := republish_tunes hradio hcached
    simp only [hfast, ne_eq, not_false_eq_true, decide_true, doIf, if_true]
    rw [left_ok hrun]
    exact ⟨hdial.trans hsped, htuned⟩

/-- The reaction to an accepted write brings the device to its fast interval, unless its `tick`
throws while that is still to be published. -/
theorem Tuned.reaction (hradio : RadioAccepts env) (h : Tuned w)
    (hreturns : w.st.advInterval ≠ w.st.fastInterval → Returns (tick env) (left goFast w)) :
    dial (left (reaction env) w) = spedDial w ∧ Tuned (left (reaction env) w) := by
  have hsped : dial w.speedUp = spedDial w := congrArg Prod.fst (aloft_speedUp w)
  unfold Firmware.reaction
  rw [left_bind_of_ok (goFast_eq w)]
  by_cases hfast : w.st.advInterval = w.st.fastInterval
  · refine left_bind (I := fun u => dial u = spedDial w ∧ Tuned u) ?_ ?_
    · obtain ⟨hdial, htuned⟩ := steady_tick hradio w.speedUp
      exact ⟨hdial.trans hsped, htuned (h.speedUp hfast)⟩
    · intro moved u _ hu
      simpa [doIf, hfast, left] using hu
  · obtain ⟨moved, u, htick⟩ := hreturns hfast
    rw [left_ok (goFast_eq w)] at htick
    rw [left_bind_of_ok htick]
    cases moved with
    | true =>
        obtain ⟨hdial, htuned⟩ := tick_tunes hradio htick
        simp only [Bool.not_true, Bool.false_and, doIf, Bool.false_eq_true, if_false]
        exact ⟨hdial.trans hsped, htuned⟩
    | false =>
        have hpassed := (tick_passes htick).trans (aloft_speedUp w)
        have hcached : u.st.lastSd ≠ none := by
          have hkept : u.st.lastSd = w.st.lastSd := congrArg (·.2.2) hpassed
          rw [hkept]
          exact h.cached
        obtain ⟨v, hrun, hdial, htuned⟩ := republish_tunes hradio hcached
        simp only [Bool.not_false, Bool.true_and, hfast, ne_eq, not_false_eq_true, decide_true,
          doIf, if_true]
        rw [left_ok hrun]
        exact ⟨hdial.trans (congrArg Prod.fst hpassed), htuned⟩

theorem Tuned.goIdle (hradio : RadioAccepts env) (h : Tuned w) :
    dial (left (goIdle env) w) = dial w.slowDown ∧ Tuned (left (goIdle env) w) := by
  have hcached : w.slowDown.st.lastSd ≠ none := h.cached
  obtain ⟨u, hrun, hdial, htuned⟩ := republish_tunes hradio hcached
  unfold Firmware.goIdle
  rw [left_bind_of_ok (update_apply _ w)]
  show dial (left (republishRate env) w.slowDown) = _ ∧ Tuned (left (republishRate env) w.slowDown)
  rw [left_ok hrun]
  exact ⟨hdial, htuned⟩

/-- The dial of a device whose interval has been set to `v`. -/
def resetDial (w : World) (v : ℤ) : ℤ × ℤ × ℤ × ℤ × Bool :=
  (if w.st.fastTimer = none then v else w.st.advInterval, v, w.st.fastInterval, w.st.fastTimeout,
    w.listening)

theorem Tuned.setAdvertisingInterval (hradio : RadioAccepts env) (h : Tuned w) {ms v : ℤ}
    (hcheck : checkInterval "interval" ms = .ok v) :
    dial (left (setAdvertisingInterval env ms) w) = resetDial w v ∧
      Tuned (left (setAdvertisingInterval env ms) w) := by
  rw [left_congr (setAdvertisingInterval_of_ok hcheck)]
  set u := scheduled env (w.retime v) with hu
  have hscheduled : (aloft u, u.st.fastTimer) = (aloft (w.retime v), w.st.fastTimer) := by
    have hkeeps : ScheduleKeeps fun w : World => (aloft w, w.st.fastTimer) := {}
    rw [hu, ← left_ok (schedule_eq env (w.retime v))]
    exact hkeeps.schedule.left_eq (w.retime v)
  simp only [aloft, dial, Prod.mk.injEq] at hscheduled
  obtain ⟨⟨⟨hadv, hinterval, hfast, htimeout, hlistening⟩, hhanded, hcached⟩, htimer⟩ := hscheduled
  have htuned : Tuned u := by
    refine ⟨?_, ?_⟩
    · rw [World.radioInterval, hhanded, hadv]
      exact h.radio
    · rw [hcached]
      exact h.cached
  unfold followInterval
  rw [left_bind_of_ok (look_apply id u), id_eq]
  -- the radio follows at once if no return to idle is pending and the interval has
  -- changed
  by_cases hfollows : u.st.fastTimer = none ∧ u.st.advInterval ≠ u.st.interval
  · have hcached' : (u.setAdvInterval u.st.interval).st.lastSd ≠ none := htuned.cached
    obtain ⟨x, hrun, hdial, htuned'⟩ := republish_tunes hradio hcached'
    have hpart : doIf (u.st.fastTimer = none ∧ u.st.advInterval ≠ u.st.interval) (do
        update (World.setAdvInterval · u.st.interval)
        republishRate env : Fw Unit) u = .ok () x := by
      rw [doIf, if_pos hfollows, update_bind]
      exact hrun
    rw [left_bind_of_ok hpart]
    refine ⟨hdial.trans ?_, htuned'⟩
    simp only [dial, resetDial, World.setAdvInterval, htimer ▸ hfollows.1, hinterval, hfast,
      htimeout, hlistening, if_true]
    rfl
  · have hpart : doIf (u.st.fastTimer = none ∧ u.st.advInterval ≠ u.st.interval) (do
        update (World.setAdvInterval · u.st.interval)
        republishRate env : Fw Unit) u = .ok () u := by
      rw [doIf, if_neg hfollows]
      rfl
    rw [left_bind_of_ok hpart]
    refine ⟨?_, htuned⟩
    have hset : u.st.advInterval = if w.st.fastTimer = none then v else w.st.advInterval := by
      split
      · rename_i hnone
        by_contra hne
        refine hfollows ⟨htimer.trans hnone, ?_⟩
        rw [hinterval]
        exact hne
      · exact hadv
    show dial u = _
    simp only [dial, resetDial, hset, hinterval, hfast, htimeout, hlistening]
    rfl

/-! ## Events -/

/-- What the module has of the rate is what the rate is. -/
structure InTune (fastInterval : ℤ) (rate : Rate) (w : World) : Prop where
  handled : Handled w
  tuned : Tuned w
  dial : dial w = (rate.interval fastInterval, rate.idle, fastInterval, rate.timeout, true)
  awaits : rate.phase.Awaits (w.pending .goIdle)

section Reacting

variable {fastInterval : ℤ} {rate : Rate} (h : InTune fastInterval rate w)

include h

theorem InTune.steady {w' : World} (hw' : Handled w') (hsteady : Steady w w')
    (hslot : slot .goIdle w' = slot .goIdle w) : InTune fastInterval rate w' where
  handled := hw'
  tuned := hsteady.2 h.tuned
  dial := hsteady.1.trans h.dial
  awaits := by
    rw [show w'.pending .goIdle = w.pending .goIdle from congrArg Prod.fst hslot]
    exact h.awaits

/-- An event that leaves the rate and the return to idle alone. -/
theorem InTune.quiet {event : Event} (hsteady : Steady w (react env w event))
    (hslot : .goIdle ∉ touched w event) : InTune fastInterval rate (react env w event) :=
  h.steady (h.handled.react env event) hsteady (slot_react h.handled hslot)

theorem InTune.fields : w.st.advInterval = rate.interval fastInterval ∧
    w.st.interval = rate.idle ∧ w.st.fastInterval = fastInterval ∧
    w.st.fastTimeout = rate.timeout ∧ w.listening = true := by
  have hdial := h.dial
  simp only [Firmware.dial, Prod.mk.injEq] at hdial
  exact hdial

theorem InTune.spedDial : Firmware.spedDial w =
    (rate.hurry.interval fastInterval, rate.idle, fastInterval, rate.timeout, true) := by
  obtain ⟨-, hidle, hfast, htimeout, hlistening⟩ := h.fields
  simp only [Firmware.spedDial, hidle, hfast, htimeout, hlistening]
  rfl

/-- What has gone fast waits for no return to idle. -/
theorem InTune.hurried {w' : World} (hw' : Handled w')
    (hsped : Firmware.dial w' = Firmware.spedDial w ∧ Tuned w')
    (hpending : w'.pending .goIdle = []) : InTune fastInterval rate.hurry w' where
  handled := hw'
  tuned := hsped.2
  dial := hsped.1.trans h.spedDial
  awaits := hpending

end Reacting

theorem pending_speedUp (hw : Handled w) : w.speedUp.pending .goIdle = [] := by
  have hcleared : w.clearFastTimer.pending .goIdle = [] := by
    rw [clears_clearFastTimer.pending hw, if_pos rfl]
  exact hcleared

theorem handled_speedUp (hw : Handled w) : Handled w.speedUp := by
  have hslots : Slots [.goIdle] w (left goFast w) := slots_goFast w
  rw [left_ok (goFast_eq w)] at hslots
  exact (hslots hw).1

/-- After `goFast`, nothing of a reaction arms a return to idle. -/
theorem pending_reaction (hw : Handled w) :
    (left (guarded env (reaction env)) w).pending .goIdle = [] := by
  have hrest : ∀ faster : Bool, Frame (Slots [.wake]) (do
      let moved ← tick env
      doIf (!moved && faster) (republishRate env) : Fw Unit) := fun _ =>
    Frame.bind slots_tick fun _ => Frame.doIf (slots_of_keeps clockwork_refreshKeeps.republishRate)
  have hslots : Slots [.wake] w.speedUp (left (guarded env (reaction env)) w) := by
    refine left_attempt (I := Slots [.wake] w.speedUp) ?_ fun e u _ hu =>
      trans_of (Slots _) hu (slots_report e u)
    unfold reaction
    rw [left_bind_of_ok (goFast_eq w)]
    exact hrest _ w.speedUp
  have hkept := (hslots (handled_speedUp hw)).2.2 .goIdle (by decide)
  exact (congrArg Prod.fst hkept).trans (pending_speedUp hw)

theorem pending_onConnect (hw : Handled w) :
    (left (guarded env (onConnect env)) w).pending .goIdle = [] := by
  have hslots : Slots [] w.speedUp (left (guarded env (onConnect env)) w) := by
    refine left_attempt (I := Slots [] w.speedUp) ?_ fun e u _ hu =>
      trans_of (Slots _) hu (slots_report e u)
    unfold onConnect
    rw [left_bind_of_ok (goFast_eq w)]
    exact (Frame.doIf (slots_of_keeps clockwork_refreshKeeps.republishRate)) w.speedUp
  have hkept := (hslots (handled_speedUp hw)).2.2 .goIdle (by decide)
  exact (congrArg Prod.fst hkept).trans (pending_speedUp hw)

section Reacting

variable {fastInterval : ℤ} {rate : Rate} (hradio : RadioAccepts env)
  (h : InTune fastInterval rate w)

include hradio h

theorem InTune.connect : InTune fastInterval rate.hurry (react env w .connect) := by
  have hhandled := h.handled.react env .connect
  revert hhandled
  simp only [Firmware.react, h.fields.2.2.2.2, if_true]
  intro hhandled
  refine h.hurried hhandled ?_ (pending_onConnect h.handled)
  refine left_attempt (I := fun u => Firmware.dial u = Firmware.spedDial w ∧ Tuned u)
    (h.tuned.onConnect hradio) fun e u _ hu => ?_
  obtain ⟨hdial, htuned⟩ := steady_of_aloft (keeps_report (f := aloft) (fun _ => rfl) e u)
  exact ⟨hdial.trans hu.1, htuned hu.2⟩

theorem InTune.write {k : ℕ} {data : Bytes} (hkeeps : KeepsRate env (rate, w) (.write k data)) :
    InTune fastInterval (rate.after env w (.write k data)) (react env w (.write k data)) := by
  have hhandled := h.handled.react env (.write k data)
  rcases onWrite_cases env k data w with ⟨u, htakes, hkept, hleft⟩ | ⟨hnone, hkept⟩
  · rw [Rate.after, if_pos ⟨u, htakes⟩]
    have haloft : aloft u = aloft w := hkept aloft aloft_writeKeeps
    have hclock : clockwork u = clockwork w := hkept clockwork clockwork_writeKeeps
    have hslots : Slots [] w u := slots_of_clockwork hclock
    have hu : InTune fastInterval rate u :=
      h.steady (h.handled.congr hclock) (steady_of_aloft haloft)
        ((hslots h.handled).2.2 .goIdle (by decide))
    have hreturns : u.st.advInterval ≠ u.st.fastInterval →
        Returns (tick env) (left goFast u) := by
      have hadv : u.st.advInterval = w.st.advInterval := congrArg (·.1.1) haloft
      have hfast : u.st.fastInterval = w.st.fastInterval := congrArg (·.1.2.2.1) haloft
      rw [hadv, hfast]
      exact hkeeps u htakes
    have hreacted : Firmware.dial (left (guarded env (reaction env)) u) = Firmware.spedDial u ∧
        Tuned (left (guarded env (reaction env)) u) := by
      refine left_attempt (I := fun x => Firmware.dial x = Firmware.spedDial u ∧ Tuned x)
        (hu.tuned.reaction hradio hreturns) fun e x _ hx => ?_
      obtain ⟨hdial, htuned⟩ := steady_of_aloft (keeps_report (f := aloft) (fun _ => rfl) e x)
      exact ⟨hdial.trans hx.1, htuned hx.2⟩
    have hstored : react env w (.write k data) =
        (left (guarded env (reaction env)) u).store k data := by
      rw [← hleft]
      rfl
    rw [hstored] at hhandled ⊢
    exact hu.hurried hhandled ⟨hreacted.1, hreacted.2.radio, hreacted.2.cached⟩
      (pending_reaction hu.handled)
  · rw [Rate.after, if_neg hnone]
    have haloft : aloft (writeEvent env k data w) = aloft w :=
      hkept aloft aloft_writeKeeps
    have hclock : clockwork (writeEvent env k data w) = clockwork w :=
      hkept clockwork clockwork_writeKeeps
    refine h.steady hhandled (steady_of_aloft haloft) ?_
    have hslots : Slots [] w (writeEvent env k data w) := slots_of_clockwork hclock
    exact (hslots h.handled).2.2 .goIdle (by decide)

omit hradio in
theorem InTune.disconnect : InTune fastInterval rate.relax (react env w .disconnect) := by
  have hhandled := h.handled.react env .disconnect
  have hreact : react env w .disconnect = w.clearFastTimer.setFastTimer := by
    simp only [Firmware.react, h.fields.2.2.2.2, if_true]
    rfl
  obtain ⟨timers, hcleared⟩ := w.clearFastTimer_eq
  have haloft : aloft w.clearFastTimer.setFastTimer = aloft w := by
    rw [hcleared]
    rfl
  have htimeout : w.clearFastTimer.st.fastTimeout = rate.timeout := by
    rw [hcleared]
    exact h.fields.2.2.2.1
  have hgone : w.clearFastTimer.pending .goIdle = [] := by
    rw [clears_clearFastTimer.pending h.handled, if_pos rfl]
  rw [hreact] at hhandled ⊢
  obtain ⟨hdial, htuned⟩ := steady_of_aloft haloft
  have hdial' := hdial.trans h.dial
  refine ⟨hhandled, htuned h.tuned, ?_, ?_⟩
  · rw [hdial']
    cases hphase : rate.phase <;> simp [Rate.relax, Rate.interval, hphase]
  · have hpending : w.clearFastTimer.setFastTimer.pending .goIdle =
        [⟨w.clearFastTimer.nextTimer, .goIdle, rate.timeout⟩] := by
      rw [arms_setFastTimer.pending, hgone, if_pos rfl, htimeout]
      rfl
    rw [hpending]
    unfold Rate.relax
    cases hphase : rate.phase with
    | idle => simp only [hphase, Phase.Awaits]
    | fast => exact ⟨_, rfl, rfl⟩
    | cooling window => exact ⟨_, rfl, rfl⟩

theorem InTune.setAdvertisingInterval {ms : ℤ}
    (hkeeps : KeepsRate env (rate, w) (.setAdvertisingInterval ms)) :
    InTune fastInterval (rate.after env w (.setAdvertisingInterval ms))
      (react env w (.setAdvertisingInterval ms)) := by
  have hhandled := h.handled.react env (.setAdvertisingInterval ms)
  have hslot : slot .goIdle (react env w (.setAdvertisingInterval ms)) = slot .goIdle w :=
    slot_react h.handled (by simp [touched])
  obtain ⟨hadv, hidle, hfast, htimeout, hlistening⟩ := h.fields
  simp only [Firmware.react, Rate.after] at hhandled hslot ⊢
  cases hcheck : checkInterval "interval" ms with
  | error e =>
      have hout : ¬ (20 ≤ ms ∧ ms ≤ 10000) := by
        unfold checkInterval at hcheck
        split at hcheck
        · omega
        · cases hcheck
      rw [if_neg hout, left_error (setAdvertisingInterval_of_error hcheck)]
      exact h
  | ok v =>
      obtain rfl := checkInterval_ok hcheck
      have hin := checkInterval_bounds hcheck
      obtain ⟨hatFast, hatIdle⟩ := hkeeps hin
      obtain ⟨hdial, htuned⟩ := h.tuned.setAdvertisingInterval hradio hcheck
      rw [if_pos hin]
      refine ⟨hhandled, htuned, hdial.trans ?_, ?_⟩
      · -- the module goes by `fastTimer`; in the two phases in which that says nothing,
        -- `hkeeps` does
        have hinterval : (if w.st.fastTimer = none then v else w.st.advInterval) =
            ({ rate with idle := v } : Rate).interval fastInterval := by
          unfold Rate.interval at hadv ⊢
          have hawaits := h.awaits
          cases hphase : rate.phase with
          | idle =>
              rw [hphase] at hadv
              split
              · rfl
              · rename_i hpending
                rw [hadv]
                exact (hatIdle hphase (Option.isSome_iff_ne_none.mpr hpending)).symm
          | fast =>
              rw [hphase] at hadv
              split
              · exact (hatFast hphase).trans hfast
              · exact hadv
          | cooling window =>
              rw [hphase] at hadv hawaits
              obtain ⟨t, hpending, -⟩ := hawaits
              have hmem : t ∈ w.pending .goIdle := by
                rw [hpending]
                exact List.mem_singleton_self t
              obtain ⟨ht, hjob⟩ := World.mem_pending.mp hmem
              have hheld := h.handled.held t ht
              rw [hjob] at hheld
              have hsome : w.st.fastTimer = some t.handle := hheld
              rw [hsome, if_neg (by simp)]
              exact hadv
        simp only [resetDial, hinterval, hfast, htimeout, hlistening]
      · rw [show (left (Firmware.setAdvertisingInterval env v) w).pending .goIdle =
          w.pending .goIdle from congrArg Prod.fst hslot]
        exact h.awaits

theorem InTune.fire (handle : ℕ) :
    InTune fastInterval (rate.after env w (.fire handle)) (react env w (.fire handle)) := by
  have hhandled := h.handled.react env (.fire handle)
  cases ht : w.timers.find? (·.handle = handle) with
  | none =>
      simp only [Rate.after, Firmware.react, Firmware.fire, ht, Option.map_none, reduceCtorEq,
        if_false]
      exact h
  | some t =>
      have hreact :
          react env w (.fire handle) = left (runJob env t.job) (w.clearTimeout handle) := by
        simp only [Firmware.react, Firmware.fire, ht]
      have hspent : Tuned (w.clearTimeout handle) := ⟨h.tuned.radio, h.tuned.cached⟩
      -- only the timeout of `goIdle` moves the rate; the other two publish at the rate
      -- there is
      by_cases hjob : t.job = .goIdle
      · obtain ⟨hdial, htuned⟩ := hspent.goIdle hradio
        have hrun : react env w (.fire handle) = left (goIdle env) (w.clearTimeout handle) := by
          rw [hreact, hjob]
          rfl
        simp only [Rate.after, ht, Option.map_some, hjob, if_true]
        rw [hrun] at hhandled ⊢
        obtain ⟨-, hidle, hfast, htimeout, hlistening⟩ := h.fields
        refine ⟨hhandled, htuned, hdial.trans ?_, trivial⟩
        show (w.st.interval, w.st.interval, w.st.fastInterval, w.st.fastTimeout, w.listening) = _
        rw [hidle, hfast, htimeout, hlistening]
        rfl
      · have hsteady : Steady w (react env w (.fire handle)) := by
          rw [hreact]
          have hspent : Steady w (w.clearTimeout handle) := steady_of_aloft rfl
          refine trans_of Steady hspent ?_
          cases hjob' : t.job with
          | wake => exact steady_wake hradio _
          | goIdle => exact absurd hjob' hjob
          | publishChange =>
              exact (Frame.attempt (steady_publishChange hradio) fun e =>
                steady_of_keeps (keeps_report (fun _ => rfl) e)) _
        simp only [Rate.after, ht, Option.map_some, Option.some.injEq, hjob, if_false]
        refine h.quiet hsteady ?_
        simp only [touched, ht, Option.elim_some]
        cases hjob' : t.job with
        | wake => decide
        | goIdle => exact absurd hjob' hjob
        | publishChange => decide

/-- Every event that keeps the rate leaves the device as the rate says. -/
theorem InTune.react {event : Event} (hkeeps : KeepsRate env (rate, w) event) :
    InTune fastInterval (rate.after env w event) (Firmware.react env w event) := by
  cases event with
  | update => exact h.quiet (steady_updateNow hradio w) (by simp [touched])
  | changed =>
      exact h.quiet (steady_of_keeps (keeps_changed fun _ => rfl) w) (by simp [touched])
  | setAdvertisingInterval ms => exact h.setAdvertisingInterval hradio hkeeps
  | setFastTimeout ms =>
      have hhandled := h.handled.react env (.setFastTimeout ms)
      by_cases hneg : ms < 0
      · have hreact : Firmware.react env w (.setFastTimeout ms) = w := by
          simp only [Firmware.react, setFastTimeout, if_pos hneg]
          rfl
        rw [hreact, Rate.after, if_neg (by omega)]
        exact h
      · have hreact : Firmware.react env w (.setFastTimeout ms) =
            { w with st := { w.st with fastTimeout := ms } } := by
          simp only [Firmware.react, setFastTimeout, if_neg hneg]
          rfl
        obtain ⟨hadv, hidle, hfast, -, hlistening⟩ := h.fields
        rw [hreact, Rate.after, if_pos (by omega)]
        rw [hreact] at hhandled
        refine ⟨hhandled, ⟨h.tuned.radio, h.tuned.cached⟩, ?_, h.awaits⟩
        show (w.st.advInterval, w.st.interval, w.st.fastInterval, ms, w.listening) = _
        rw [hadv, hidle, hfast, hlistening]
        rfl
  | write k data => exact h.write hradio hkeeps
  | challenge data =>
      refine h.quiet ?_ (by simp [touched])
      simp only [Firmware.react]
      split
      · exact steady_of_keeps ((aloft_writeKeeps).onChallenge data) w
      · exact refl_of Steady w
  | connect => exact h.connect hradio
  | disconnect => exact h.disconnect
  | fire handle => exact h.fire hradio handle
  | turn =>
      refine h.quiet (steady_of_aloft ?_) (by simp [touched])
      exact ((aloft_serveKeeps).runAll (fun _ _ => rfl) _ _).trans rfl

end Reacting

/-! ## Runs -/

/-- A `setup()` that returned has handed the radio the idle interval. -/
theorem inTune_setup {opts : SetupOpts} {b b' : Board} {st : St} (htidy : Tidy b)
    (h : setup env opts b = .ok () b') (hst : b'.st = some st) :
    InTune (max 100 (orElse opts.fastInterval 100)) (.start opts) (b'.world st) := by
  obtain ⟨next, u, hnext, hrun, rfl⟩ := setup_ok h
  obtain rfl : u.st = st := Option.some.inj hst
  have hbuilt := built_of_buildNext hnext
  have hhandled : Handled u := by
    have hslots : Slots [.wake] (b.swap next) u := slots_install.ok hrun
    exact (hslots (htidy.swap hnext).1).1
  rw [install_eq] at hrun
  obtain ⟨_, v, hclaim, hrun⟩ := bind_ok.mp hrun
  obtain ⟨r, hrefresh, hattend⟩ := always_ok hrun
  obtain ⟨sd, x, hrebuilt, hput⟩ := bind_ok.mp hrefresh
  obtain ⟨-, rfl⟩ := publish_ok hput
  have hclaimed : aloft v = aloft (b.swap next) :=
    ((aloft_serveKeeps).claim (fun _ _ => rfl) opts).ok hclaim
  have hbuilt' : aloft x = aloft v := ((aloft_rebuildKeeps).rebuild false).ok hrebuilt
  obtain ⟨_, y, hscheduled, hlistens⟩ := bind_ok.mp hattend
  obtain ⟨-, rfl⟩ := EStateM.Result.ok.inj hlistens
  -- the packet of `setup` is handed over at the idle interval, and nothing after it
  -- moves the rate
  set r := (x.asked.hand sd (advOptions x.st) true).onAir sd
  have hr : Tuned r :=
    ⟨World.radioInterval_hand x.asked sd (advOptions x.st) true, by rintro ⟨⟩⟩
  have hlast : aloft y = aloft r := (aloft_scheduleKeeps).schedule.ok hscheduled
  have hy : Tuned y := (steady_of_aloft hlast).2 hr
  have hdial : dial y = dial (b.swap next) := by
    have hbefore := congrArg Prod.fst (hbuilt'.trans hclaimed)
    calc dial y
        = dial r := congrArg Prod.fst hlast
      _ = dial x := rfl
      _ = dial (b.swap next) := hbefore
  have hnew : (b.swap next).st = next := rfl
  simp only [dial, Prod.mk.injEq, hnew] at hdial
  obtain ⟨hadv, hidle, hfast, htimeout, -⟩ := hdial
  refine ⟨⟨hhandled.held, hhandled.used, hhandled.apart, hhandled.nodup⟩, ⟨hy.radio, hy.cached⟩,
    ?_, trivial⟩
  show (y.st.advInterval, y.st.interval, y.st.fastInterval, y.st.fastTimeout, true) = _
  rw [hadv, hidle, hfast, htimeout, hbuilt.idle, hbuilt.interval, hbuilt.fastInterval,
    hbuilt.fastTimeout]
  rfl

/-- After a `setup()` that returned, on a radio that accepts every packet, in a run whose events
keep the rate: the interval most recently handed to the radio is the one of the phase the device is
in, and while the device waits to go idle, a timeout of the right length is pending. -/
theorem radio_follows_rate (env : Env) (hradio : RadioAccepts env) (file : Option MarksFile)
    (earlier : List BoardEvent) (opts : SetupOpts) (b b' : Board) (st : St) (events : List Event)
    (hb : b = Runs.run (Board.step env) (Board.powerOn file) earlier)
    (hsetup : setup env opts b = .ok () b') (hst : b'.st = some st)
    (hkeeps : Runs.Along (rateStep env) (KeepsRate env) (.start opts, b'.world st) events) :
    let s := Runs.run (rateStep env) (.start opts, b'.world st) events
    s.2.radioInterval = some (s.1.interval (max 100 (orElse opts.fastInterval 100))) ∧
      s.1.phase.Awaits (s.2.pending .goIdle) := by
  have hstart := inTune_setup (hb ▸ tidy_run env file earlier) hsetup hst
  have hstep : ∀ (s : Rate × World) (event : Event),
      InTune (max 100 (orElse opts.fastInterval 100)) s.1 s.2 → KeepsRate env s event →
      InTune (max 100 (orElse opts.fastInterval 100)) (rateStep env s event).1
        (rateStep env s event).2 := fun _ _ h hevent => h.react hradio hevent
  have hrun := Runs.run_invariant hstep hstart hkeeps
  refine ⟨?_, hrun.awaits⟩
  rw [← hrun.fields.1]
  exact hrun.tuned.radio

set_option maxRecDepth 4000 in
/-- A connection comes and goes. -/
theorem radio_follows_rate_sample :
    (Runs.run (rateStep sampleEnv) (.start sampleOpts, plainBoard.world plainSt)
      [.connect, .disconnect]).2.radioInterval = some 100 := by
  have h := (radio_follows_rate sampleEnv (fun _ _ _ => rfl) none [] sampleOpts (Board.powerOn none)
    plainBoard plainSt [.connect, .disconnect] rfl rfl (Option.some_get _).symm
    ⟨trivial, trivial, trivial⟩).1
  exact h

/-- A device that is told an interval while a central is connected. -/
noncomputable def retunedRun : Rate × World :=
  Runs.run (rateStep sampleEnv) (.start sampleOpts, plainBoard.world plainSt)
    [.connect, .setAdvertisingInterval 500]

set_option maxRecDepth 4000 in
/-- It goes slow, and the central has not left. -/
theorem slow_while_connected :
    RadioAccepts sampleEnv ∧ setup sampleEnv sampleOpts (Board.powerOn none) = .ok () plainBoard ∧
      retunedRun.1.phase = .fast ∧ retunedRun.1.interval 100 = 100 ∧
      retunedRun.2.radioInterval = some 500 ∧
      ¬ retunedRun.2.radioInterval = some (retunedRun.1.interval 100) := by
  have hphase : retunedRun.1.phase = .fast := by
    simp [retunedRun, Runs.run, rateStep, Rate.after, Rate.hurry]
  have hinterval : retunedRun.1.interval 100 = 100 := by
    simp only [Rate.interval, hphase]
  have hradio : retunedRun.2.radioInterval = some 500 := rfl
  refine ⟨fun _ _ _ => rfl, rfl, hphase, hinterval, hradio, ?_⟩
  rw [hradio, hinterval]
  decide

end BTHomeWritable.Firmware
