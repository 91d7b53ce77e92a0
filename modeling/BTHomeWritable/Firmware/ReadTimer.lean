import BTHomeWritable.Firmware.SetupErrors
import BTHomeWritable.Firmware.Timers
import Mathlib.Data.List.Induction

/-!
# The read timer

A device with something to read has exactly one wake pending after every event.
`schedule` arms it within `READ_SLACK` of the interval of some entry, whatever
the clock has done in the meantime, and `wake` arms it at the advertising
interval where its `tick` threw.  Every other program leaves alone both the
pending wake and the intervals it is measured by, the `rhythm` of the device.

* `Armed` says of a world that its wake is pending at a delay within these
  bounds, and `Paced` of a program that it leaves the wake be or arms it so.
* `Wakes` is what an event may do to it: leave it be, arm it anew, or arm the
  retry of a wake that has failed (`Retrying`).
* `ReadTimer` is the invariant of a run; `read_timer_run` is the induction and
  `read_timer_armed` starts it at a `setup()`.

The one path on which no wake is armed is an `onError` that throws when `wake`
tells it of the failure; `WakeReported` sets it aside.  `retry_outlasts_interval`
is a device whose retry is armed for longer than its entries ask for.
-/

namespace BTHomeWritable.Firmware

open Device Throwing

variable {env : Env} {w : World}

/-! ## Intervals -/

/-- The interval an entry is read at. -/
def effectiveInterval (interval : ℤ) (it : Sensor) : ℤ :=
  if it.readInterval = 0 then interval else (it.readInterval : ℤ)

/-- The largest interval an advertised entry is read at. -/
def largestInterval (st : St) : ℤ :=
  (st.plan.ordered.map (effectiveInterval st.interval)).foldr max 0

theorem le_foldr_max {v : ℤ} {l : List ℤ} (h : v ∈ l) : v ≤ l.foldr max 0 := by
  induction l with
  | nil => cases h
  | cons a rest ih =>
      rcases List.mem_cons.mp h with rfl | h
      · exact le_max_left _ _
      · exact (ih h).trans (le_max_right _ _)

theorem foldr_max_nonneg (l : List ℤ) : 0 ≤ l.foldr max 0 := by
  induction l with
  | nil => exact le_rfl
  | cons a rest ih => exact ih.trans (le_max_right _ _)

theorem nextDue_intervals (now interval : ℤ) (ordered : List Sensor) :
    (nextDue now interval ordered).1.map (·.readInterval) = ordered.map (·.readInterval) := by
  induction ordered with
  | nil => rfl
  | cons it rest ih =>
      have hone : (notAhead now it).readInterval = it.readInterval := by
        unfold notAhead
        split <;> rfl
      simp only [nextDue, List.map_cons, hone, ih]

/-- However the clock has jumped, an entry falls due within its interval. -/
theorem dueIn_notAhead (now interval : ℤ) (it : Sensor) :
    dueIn now interval (notAhead now it) ≤ effectiveInterval interval it := by
  unfold dueIn notAhead effectiveInterval
  by_cases hahead : it.lastRead > now
  · simp only [if_pos hahead]
    omega
  · simp only [if_neg hahead]
    omega

theorem nextDue_wait (now interval : ℤ) {ordered : List Sensor} (h : ordered ≠ []) :
    ∃ wait, (nextDue now interval ordered).2 = some wait ∧
      wait ≤ (ordered.map (effectiveInterval interval)).foldr max 0 := by
  cases ordered with
  | nil => exact absurd rfl h
  | cons it rest =>
      refine ⟨_, rfl, ?_⟩
      have hfirst := dueIn_notAhead now interval it
      have hlargest : effectiveInterval interval it ≤
          ((it :: rest).map (effectiveInterval interval)).foldr max 0 :=
        le_foldr_max (by simp)
      cases (nextDue now interval rest).2 with
      | none => exact hfirst.trans hlargest
      | some wait =>
          calc min (dueIn now interval (notAhead now it)) wait
              ≤ dueIn now interval (notAhead now it) := min_le_left _ _
            _ ≤ effectiveInterval interval it := hfirst
            _ ≤ _ := hlargest

/-! ## The rhythm of a device -/

/-- What the read timer is measured by. -/
def rhythm (w : World) : ℤ × List ℕ := (w.st.interval, w.st.plan.ordered.map (·.readInterval))

theorem readSensor_interval (read : ℕ → Except JsError Obj) (now : ℤ) (it : Sensor) :
    (readSensor read now it).1.readInterval = it.readInterval := by
  unfold readSensor
  cases read it.entryIndex with
  | error x => rfl
  | ok b => dsimp only; split <;> [rfl; split <;> rfl]

theorem rhythm_render (w : World) (r : Render) :
    rhythm (w.asked.setPlan (renderServiceData w.st.plan r).1) = rhythm w := by
  refine Prod.ext rfl ?_
  simp only [rhythm, World.setPlan, renderServiceData_eq, renderedPlan, renderReads]
  cases r.source with
  | none => rfl
  | some read => exact map_readDue readSensor_interval read r.now w.st.plan.ordered

theorem rhythm_tickKeeps : TickKeeps rhythm where
  render := rhythm_render
  settle w now interval := Prod.ext rfl (nextDue_intervals now interval _)
  read w read now := Prod.ext rfl (map_readDue readSensor_interval read now _)

theorem rhythm_rateKeeps : RateKeeps rhythm where

theorem rhythm_serveKeeps : ServeKeeps rhythm where

theorem rhythm_writeKeeps : WriteKeeps rhythm where

/-- A wake is pending, armed no earlier than `first`, at a bounded delay. -/
structure Armed (first : ℕ) (w : World) : Prop where
  wake : ∃ t, w.pending .wake = [t] ∧ first ≤ t.handle ∧ READ_SLACK ≤ t.delay ∧
    t.delay ≤ READ_SLACK + largestInterval w.st

theorem largestInterval_congr {w' : World} (h : rhythm w' = rhythm w) :
    largestInterval w'.st = largestInterval w.st := by
  have hlist : ∀ u : World, u.st.plan.ordered.map (effectiveInterval u.st.interval) =
      (rhythm u).2.map fun n : ℕ => if n = 0 then (rhythm u).1 else (n : ℤ) := by
    intro u
    simp only [rhythm, List.map_map]
    rfl
  unfold largestInterval
  rw [hlist, hlist, h]

theorem Armed.congr {first : ℕ} {w' : World} (h : Armed first w)
    (hslot : slot .wake w' = slot .wake w) (hrhythm : rhythm w' = rhythm w) : Armed first w' := by
  obtain ⟨t, hpending, hrest⟩ := h.wake
  refine ⟨t, (congrArg Prod.fst hslot).trans hpending, ?_⟩
  rw [largestInterval_congr hrhythm]
  exact hrest

theorem Armed.mono {first first' : ℕ} (h : Armed first' w) (hle : first ≤ first') :
    Armed first w := by
  obtain ⟨t, hpending, hfirst, hrest⟩ := h.wake
  exact ⟨t, hpending, hle.trans hfirst, hrest⟩

/-- The rhythm is as it was, and so is the wake unless one has been armed since. -/
def Paced (w w' : World) : Prop :=
  Handled w → w.st.plan.ordered ≠ [] →
    Handled w' ∧ rhythm w' = rhythm w ∧ w.nextTimer ≤ w'.nextTimer ∧
      (slot .wake w' = slot .wake w ∨ Armed w.nextTimer w')

theorem ordered_ne_nil {w' : World} (h : rhythm w' = rhythm w) (hsome : w.st.plan.ordered ≠ []) :
    w'.st.plan.ordered ≠ [] := by
  have hlength := congrArg (fun r => r.2.length) h
  simp only [rhythm, List.length_map] at hlength
  intro hnil
  rw [hnil] at hlength
  exact hsome (List.length_eq_zero_iff.mp hlength.symm)

instance : IsPreorder World Paced where
  refl _ h _ := ⟨h, rfl, le_rfl, .inl rfl⟩
  trans _ _ _ h h' hw hsome := by
    obtain ⟨hu, hrhythm, hnext, hwake⟩ := h hw hsome
    obtain ⟨hv, hrhythm', hnext', hwake'⟩ := h' hu (ordered_ne_nil hrhythm hsome)
    refine ⟨hv, hrhythm'.trans hrhythm, hnext.trans hnext', ?_⟩
    rcases hwake' with hslot | harmed
    · rcases hwake with hslot' | harmed
      · exact .inl (hslot.trans hslot')
      · exact .inr (harmed.congr hslot hrhythm')
    · exact .inr (harmed.mono hnext)

/-- Whoever leaves the wake and the intervals alone. -/
theorem paced_of_slots {jobs : List Job} {w' : World} (h : Slots jobs w w') (hwake : .wake ∉ jobs)
    (hrhythm : rhythm w' = rhythm w) : Paced w w' := by
  intro hw _
  obtain ⟨hw', hnext, hslots⟩ := h hw
  exact ⟨hw', hrhythm, hnext, .inl (hslots .wake hwake)⟩

theorem paced_of_same {w' : World} (hclock : clockwork w' = clockwork w)
    (hrhythm : rhythm w' = rhythm w) : Paced w w' :=
  have hslots : Slots [] w w' := slots_of_clockwork hclock
  paced_of_slots hslots (by simp) hrhythm

theorem paced_of_keeps {α : Type} {p : Fw α} (hclock : Frame (Keeps clockwork) p)
    (hrhythm : Frame (Keeps rhythm) p) : Frame Paced p := fun w =>
  paced_of_same (hclock w) (hrhythm w)

/-! ## Programs -/

/-- Whenever it runs, `schedule` leaves one wake with a bounded delay. -/
theorem armed_scheduled (env : Env) (hw : Handled w) (hsome : w.st.plan.ordered ≠ []) :
    Armed w.nextTimer (scheduled env w) := by
  have hrhythm : rhythm (scheduled env w) = rhythm w := by
    rw [← left_ok (schedule_eq env w)]
    exact (rhythm_tickKeeps).toScheduleKeeps.schedule.left_eq w
  obtain ⟨wait, hwait, hle⟩ :=
    nextDue_wait (env.clock w.calls) w.st.interval hsome
  have hgone : w.clearTimer.pending .wake = [] := by
    rw [clears_clearTimer.pending hw, if_pos rfl]
  refine ⟨⟨w.clearTimer.nextTimer, .wake, max wait 0 + READ_SLACK⟩, ?_, ?_, ?_, ?_⟩
  · simp only [scheduled, hwait, Option.elim_some, (arms_setTimer _).pending, if_pos]
    exact congrArg (· ++ _) hgone
  · exact clears_clearTimer.next.ge
  · exact le_add_of_nonneg_left (le_max_right _ _)
  · rw [largestInterval_congr hrhythm, add_comm READ_SLACK]
    exact add_le_add_left (max_le hle (foldr_max_nonneg _)) READ_SLACK

theorem paced_schedule : Frame Paced (schedule env) := by
  intro w hw hsome
  have hrhythm : rhythm (left (schedule env) w) = rhythm w :=
    (rhythm_tickKeeps).toScheduleKeeps.schedule.left_eq w
  have hslots : Slots [.wake] w (left (schedule env) w) := slots_schedule w
  obtain ⟨hw', hnext, -⟩ := hslots hw
  refine ⟨hw', hrhythm, hnext, .inr ?_⟩
  rw [left_ok (schedule_eq env w)]
  exact armed_scheduled env hw hsome

theorem paced_tick : Frame Paced (tick env) :=
  frame_tick (paced_of_keeps clockwork_readAndRefresh (rhythm_tickKeeps).readAndRefresh)
    paced_schedule fun _ => paced_of_same rfl rfl

/-- A `tick` that returns has armed the next wake. -/
theorem armed_tick {moved : Bool} {v : World} (h : tick env w = .ok moved v) (hw : Handled w)
    (hsome : w.st.plan.ordered ≠ []) : Armed w.nextTimer v := by
  rw [tick_eq] at h
  obtain ⟨moved', u, hread, h⟩ := bind_ok.mp h
  rw [bind_of_ok (schedule_eq env u)] at h
  obtain ⟨-, rfl⟩ := EStateM.Result.ok.inj h
  have hclock : clockwork u = clockwork w := clockwork_readAndRefresh.ok hread
  have hrhythm : rhythm u = rhythm w := (rhythm_tickKeeps).readAndRefresh.ok hread
  have hu : Handled u := hw.congr hclock
  have harmed := armed_scheduled env hu (ordered_ne_nil hrhythm hsome)
  have hnext : u.nextTimer = w.nextTimer := congrArg (·.2.1) hclock
  have hnoted : Armed u.nextTimer (scheduled env u).noteReturn := harmed.congr rfl rfl
  exact hnoted.mono hnext.ge

theorem paced_goFast : Frame Paced goFast := fun w =>
  paced_of_slots (slots_goFast w) (by decide) ((rhythm_rateKeeps).goFast w)

theorem paced_republishRate : Frame Paced (republishRate env) :=
  paced_of_keeps clockwork_refreshKeeps.republishRate (rhythm_tickKeeps).republishRate

theorem paced_refreshAdvertising (cached : Bool) : Frame Paced (refreshAdvertising env cached) :=
  paced_of_keeps (clockwork_refreshKeeps.refreshAdvertising cached)
    ((rhythm_tickKeeps).refreshAdvertising cached)

theorem paced_reaction : Frame Paced (reaction env) :=
  frame_reaction paced_goFast paced_tick paced_republishRate

theorem paced_updateNow : Frame Paced (updateNow env) := by
  refine Frame.bind (Frame.update fun w => paced_of_same rfl ?_) fun _ => ?_
  · simp only [rhythm, World.setOrdered, World.setPlan, forgetReads, List.map_map]
    rfl
  refine Frame.bind (paced_refreshAdvertising false) fun _ => ?_
  exact Frame.bind paced_schedule fun _ => Frame.update fun w => paced_of_same rfl rfl

theorem paced_announce : Frame Paced (announce env) := by
  refine Frame.bind (Frame.look id) fun w => ?_
  refine Frame.bind (paced_of_keeps (clockwork_serveKeeps.publishReads _)
    ((rhythm_serveKeeps).publishReads _)) fun _ => ?_
  refine Frame.bind (paced_refreshAdvertising false) fun _ => ?_
  exact Frame.bind paced_schedule fun _ => Frame.update fun w => paced_of_same rfl rfl

theorem paced_report (e : JsError) : Frame Paced (report env e) :=
  paced_of_keeps (keeps_report (fun _ => rfl) e) (keeps_report (fun _ => rfl) e)

theorem paced_followInterval (v : ℤ) : Frame Paced (followInterval env v) := by
  refine Frame.bind (Frame.look id) fun w => Frame.bind (Frame.doIf ?_) fun _ => Frame.pure _
  exact Frame.bind (Frame.update fun w => paced_of_same rfl rfl) fun _ => paced_republishRate

/-! ## Events -/

/-- A wake is pending that retries at the advertising interval. -/
structure Retrying (first : ℕ) (w : World) : Prop where
  wake : ∃ t, w.pending .wake = [t] ∧ first ≤ t.handle ∧ t.delay = READ_SLACK + w.st.interval

/-- In `event` a wake throws `e` from its `tick`, which leaves `u`. -/
def FailedWake (env : Env) (w : World) (event : Event) (e : JsError) (u : World) : Prop :=
  ∃ handle t, event = .fire handle ∧ w.timers.find? (·.handle = handle) = some t ∧
    t.job = .wake ∧ tick env (w.clearTimeout handle) = .error e u

/-- An `onError` that is told of a failed wake returns. -/
def WakeReported (env : Env) (w : World) (event : Event) : Prop :=
  ∀ e u, FailedWake env w event e u → u.st.onError = true → env.throws u.calls (.onError e) = none

/-- What an event makes of the wake. -/
structure Wakes (env : Env) (event : Event) (w w' : World) : Prop where
  ordered : w'.st.plan.ordered ≠ []
  interval : 20 ≤ w.st.interval → 20 ≤ w'.st.interval
  next : w.nextTimer ≤ w'.nextTimer
  wake : (slot .wake w' = slot .wake w ∧ rhythm w' = rhythm w) ∨ Armed w.nextTimer w' ∨
    ((∃ e u, FailedWake env w event e u) ∧ Retrying w.nextTimer w')

theorem wakes_of_paced {event : Event} {w' : World} (h : Paced w w') (hw : Handled w)
    (hsome : w.st.plan.ordered ≠ []) : Wakes env event w w' := by
  obtain ⟨-, hrhythm, hnext, hwake⟩ := h hw hsome
  refine ⟨ordered_ne_nil hrhythm hsome, fun h => ?_, hnext, ?_⟩
  · exact h.trans (congrArg Prod.fst hrhythm).ge
  · exact hwake.imp (fun hslot => ⟨hslot, hrhythm⟩) .inl

theorem wakes_setAdvertisingInterval (hw : Handled w) (hsome : w.st.plan.ordered ≠ []) (ms : ℤ) :
    Wakes env (.setAdvertisingInterval ms) w (left (setAdvertisingInterval env ms) w) := by
  cases hcheck : checkInterval "interval" ms with
  | error e =>
      rw [left_error (setAdvertisingInterval_of_error hcheck)]
      exact ⟨hsome, id, le_rfl, .inl ⟨rfl, rfl⟩⟩
  | ok v =>
      -- the intervals have changed, and `schedule` measures by the new ones
      have hretimed : Slots [] w (w.retime v) := slots_of_clockwork rfl
      have hsome' : (w.retime v).st.plan.ordered ≠ [] := fun hnil =>
        hsome (List.map_eq_nil_iff.mp hnil)
      have harmed := armed_scheduled env (hretimed hw).1 hsome'
      have hscheduled : Paced (w.retime v) (left (schedule env) (w.retime v)) := paced_schedule _
      replace hscheduled := hscheduled (hretimed hw).1 hsome'
      rw [left_ok (schedule_eq env _)] at hscheduled
      obtain ⟨hu, hrhythm, hnext, -⟩ := hscheduled
      have husome := ordered_ne_nil hrhythm hsome'
      have hfollowed : Paced _ (left (followInterval env v) (scheduled env (w.retime v))) :=
        paced_followInterval v _
      obtain ⟨-, hrhythm', hnext', hwake⟩ := hfollowed hu husome
      have hinterval := congrArg Prod.fst (hrhythm'.trans hrhythm)
      rw [left_congr (setAdvertisingInterval_of_ok hcheck)]
      refine ⟨ordered_ne_nil hrhythm' husome, fun _ => ?_, hnext.trans hnext', .inr (.inl ?_)⟩
      · obtain rfl := checkInterval_ok hcheck
        exact (checkInterval_bounds hcheck).1.trans hinterval.ge
      · rcases hwake with hslot | harmed'
        · exact harmed.congr hslot hrhythm'
        · exact harmed'.mono hnext

/-- The timeout of another job fires without any effect on the wake. -/
theorem paced_spend (hw : Handled w) {t : Timer} (ht : t ∈ w.timers) (hjob : t.job ≠ .wake) :
    Paced w (w.clearTimeout t.handle) :=
  paced_of_slots (hw.spend ht).1 (by simpa using hjob.symm) rfl

theorem paced_goIdle (hgone : w.pending .goIdle = []) : Paced w (left (goIdle env) w) := by
  unfold goIdle
  rw [left_bind_of_ok (update_apply _ w)]
  exact trans_of Paced (paced_of_slots (slots_slowDown hgone) (by decide) rfl)
    (paced_republishRate _)

theorem paced_publishChange (hgone : w.pending .publishChange = []) :
    Paced w (left (guarded env (publishChange env)) w) := by
  refine left_attempt (I := Paced w) ?_ fun e u _ hu => trans_of Paced hu (paced_report e u)
  rw [left_congr (publishChange_eq env w)]
  exact trans_of Paced (paced_of_slots (slots_countChange hgone) (by decide) rfl)
    (paced_announce _)

theorem wakes_retry (env : Env) {u : World} (e : JsError) (hgone : w.pending .wake = [])
    (hclock : clockwork u = clockwork w) (hrhythm : rhythm u = rhythm w)
    (hreported : u.st.onError = true → env.throws u.calls (.onError e) = none) :
    rhythm (left (retry env e) u) = rhythm w ∧ w.nextTimer ≤ (left (retry env e) u).nextTimer ∧
      Retrying w.nextTimer (left (retry env e) u) := by
  obtain ⟨v, hrun, hv, hvr⟩ : ∃ v, report env e u = .ok () v ∧ clockwork v = clockwork w ∧
      rhythm v = rhythm w := by
    unfold report
    rw [look_bind, id_eq, doIf]
    split
    · rename_i honerror
      exact ⟨u.asked, ask_of_none (hreported honerror), hclock, hrhythm⟩
    · exact ⟨u, rfl, hclock, hrhythm⟩
  have hleft : left (retry env e) u = v.setTimer (v.st.interval + READ_SLACK) := by
    unfold retry
    rw [left_bind_of_ok hrun]
    rfl
  have hnext : v.nextTimer = w.nextTimer := congrArg (·.2.1) hv
  have hnone : v.pending .wake = [] := by
    rw [← hgone]
    exact congrArg (fun c => c.1.filter (·.job = .wake)) hv
  rw [hleft]
  refine ⟨hvr, by rw [(arms_setTimer _).next]; omega,
    ⟨⟨v.nextTimer, .wake, v.st.interval + READ_SLACK⟩, ?_, hnext.ge, add_comm _ _⟩⟩
  rw [(arms_setTimer _).pending, hnone, if_pos rfl]
  rfl

theorem wakes_fire (hw : Handled w) (hsome : w.st.plan.ordered ≠ []) {handle : ℕ}
    (hreported : WakeReported env w (.fire handle)) :
    Wakes env (.fire handle) w (fire env handle w) := by
  unfold fire
  cases ht : w.timers.find? (·.handle = handle) with
  | none => exact ⟨hsome, id, le_rfl, .inl ⟨rfl, rfl⟩⟩
  | some t =>
      obtain ⟨hmem, rfl⟩ := find?_handle ht
      obtain ⟨hspent, hgone⟩ := hw.spend hmem
      have hu := (hspent hw).1
      simp only
      cases hjob : t.job with
      | goIdle =>
          have hother : t.job ≠ .wake := by simp [hjob]
          rw [hjob] at hgone
          exact wakes_of_paced (trans_of Paced (paced_spend hw hmem hother) (paced_goIdle hgone))
            hw hsome
      | publishChange =>
          have hother : t.job ≠ .wake := by simp [hjob]
          rw [hjob] at hgone
          exact wakes_of_paced
            (trans_of Paced (paced_spend hw hmem hother) (paced_publishChange hgone)) hw hsome
      | wake =>
          rw [hjob] at hgone
          show Wakes env _ w (left (wake env) (w.clearTimeout t.handle))
          -- the timeout is spent, so a wake that returns or throws has to arm the next
          -- one itself
          cases htick : tick env (w.clearTimeout t.handle) with
          | ok moved v =>
              rw [left_ok (wake_of_ok htick)]
              obtain ⟨-, hrhythm, hnext, -⟩ := (paced_tick).ok htick hu hsome
              have harmed : Armed (w.clearTimeout t.handle).nextTimer v := armed_tick htick hu hsome
              exact ⟨ordered_ne_nil hrhythm hsome, fun h => h.trans (congrArg Prod.fst hrhythm).ge,
                hnext, .inr (.inl harmed)⟩
          | error e v =>
              have hfailed : FailedWake env w (.fire t.handle) e v :=
                ⟨t.handle, t, rfl, ht, hjob, htick⟩
              obtain ⟨hrhythm, hnext, hretrying⟩ := wakes_retry env e hgone
                (clockwork_readAndRefresh.error (tick_error htick))
                ((rhythm_tickKeeps).readAndRefresh.error (tick_error htick)) (hreported e v hfailed)
              rw [left_congr (wake_of_error htick)]
              exact ⟨ordered_ne_nil hrhythm hsome, fun h => h.trans (congrArg Prod.fst hrhythm).ge,
                hnext, .inr (.inr ⟨⟨e, v, hfailed⟩, hretrying⟩)⟩

/-- What every event makes of the wake, unless an `onError` throws that is told of a failed one. -/
theorem wakes_react (hw : Handled w) (hsome : w.st.plan.ordered ≠ []) {event : Event}
    (hreported : WakeReported env w event) : Wakes env event w (react env w event) := by
  have hquiet : ∀ {p : Fw Unit}, Frame (Keeps clockwork) p → Frame (Keeps rhythm) p →
      Wakes env event w (left p w) := fun hclock hrhythm =>
    wakes_of_paced (paced_of_keeps hclock hrhythm w) hw hsome
  have hsame : Wakes env event w w := wakes_of_paced (refl_of Paced w) hw hsome
  -- every event but a change of the interval and a timeout leaves the wake or arms it
  -- anew
  cases event with
  | update => exact wakes_of_paced (paced_updateNow w) hw hsome
  | changed =>
      exact wakes_of_paced
        (paced_of_slots (slots_changed w) (by decide) (keeps_changed (fun _ => rfl) w)) hw hsome
  | setAdvertisingInterval ms => exact wakes_setAdvertisingInterval hw hsome ms
  | setFastTimeout ms =>
      exact wakes_of_paced (paced_of_keeps (keeps_setFastTimeout (fun _ _ => rfl) ms)
        (keeps_setFastTimeout (fun _ _ => rfl) ms) w) hw hsome
  | write k data =>
      have hwrite : Frame Paced (onWrite env k data) :=
        frame_onWrite (f := fun w => (clockwork w, rhythm w))
          (fun _ _ h => paced_of_same (congrArg Prod.fst h) (congrArg Prod.snd h))
          {} paced_reaction k data
      have hstored : Paced (left (onWrite env k data) w) (writeEvent env k data w) :=
        paced_of_same rfl rfl
      exact wakes_of_paced (trans_of Paced (hwrite w) hstored) hw hsome
  | challenge data =>
      simp only [react]
      split
      · exact hquiet (clockwork_writeKeeps.onChallenge data) ((rhythm_writeKeeps).onChallenge data)
      · exact hsame
  | connect =>
      simp only [react]
      split
      · refine wakes_of_paced (Frame.attempt (R := Paced) ?_ paced_report w) hw hsome
        exact Frame.bind paced_goFast fun _ => Frame.doIf paced_republishRate
      · exact hsame
  | disconnect =>
      simp only [react]
      split
      · refine wakes_of_paced (Frame.attempt (R := Paced) ?_ paced_report w) hw hsome
        exact fun w => paced_of_slots (slots_goIdleAfterTimeout w) (by decide)
          ((rhythm_rateKeeps).goIdleAfterTimeout (fun _ => rfl) w)
      · exact hsame
  | fire handle => exact wakes_fire hw hsome hreported
  | turn =>
      exact wakes_of_paced (paced_of_same
        ((clockwork_serveKeeps.runAll (fun _ _ => rfl) _ _).trans rfl)
        (((rhythm_serveKeeps).runAll (fun _ _ => rfl) _ _).trans rfl)) hw hsome

/-! ## `setup()` -/

theorem armed_setup {opts : SetupOpts} {b b' : Board} {st : St} (htidy : Tidy b)
    (h : setup env opts b = .ok () b' ∨
      ∃ e, setup env opts b = .error e b' ∧ e.code = some .advertisingRejected)
    (hst : b'.st = some st) (hsome : st.plan.ordered ≠ []) :
    Handled (b'.world st) ∧ 20 ≤ st.interval ∧ b.nextTimer ≤ b'.nextTimer ∧
      Armed b.nextTimer (b'.world st) := by
  obtain ⟨next, v, hnext, hclaim, rfl⟩ := setup_attends h
  obtain ⟨hswap, -⟩ := htidy.swap hnext
  set r := left (refreshAdvertising env false) v with hr
  obtain rfl : (left (attend env) r).st = st := Option.some.inj hst
  have hleft : left (attend env) r = { scheduled env r with listening := true } := by
    unfold attend
    rw [left_bind_of_ok (schedule_eq env r)]
    rfl
  have hclock : clockwork r = clockwork (b.swap next) :=
    ((clockwork_refreshKeeps.refreshAdvertising false).left_eq v).trans
      ((clockwork_serveKeeps.claim (fun _ _ => rfl) opts).ok hclaim)
  have hrhythm : rhythm r = rhythm (b.swap next) :=
    (((rhythm_tickKeeps).refreshAdvertising false).left_eq v).trans
      (((rhythm_serveKeeps).claim (fun _ _ => rfl) opts).ok hclaim)
  -- the timeouts of the state before are gone with it, and publishing sets none
  have hhandled : Handled r := hswap.congr hclock
  have hrhythm' : rhythm (scheduled env r) = rhythm r := by
    rw [← left_ok (schedule_eq env r)]
    exact (rhythm_tickKeeps).toScheduleKeeps.schedule.left_eq r
  have hsome' : r.st.plan.ordered ≠ [] := by
    rw [hleft] at hsome
    exact ordered_ne_nil hrhythm'.symm hsome
  have hnextTimer : r.nextTimer = b.nextTimer := by
    have hswapped : (b.swap next).nextTimer = b.nextTimer := by
      unfold Board.swap
      cases b.st <;> rfl
    exact (congrArg (·.2.1) hclock).trans hswapped
  have hslots := slots_scheduled env r hhandled
  have hinterval : 20 ≤ (scheduled env r).st.interval := by
    have hkept := congrArg Prod.fst (hrhythm'.trans hrhythm)
    exact (built_of_buildNext hnext).bound.trans hkept.ge
  rw [hleft]
  refine ⟨?_, hinterval, hnextTimer ▸ hslots.2.1, ?_⟩
  · exact ⟨hslots.1.held, hslots.1.used, hslots.1.apart, hslots.1.nodup⟩
  · have harmed := armed_scheduled env hhandled hsome'
    rw [hnextTimer] at harmed
    exact harmed.congr (w := scheduled env r) rfl rfl

/-! ## Runs -/

/-- What holds of the wake in every state after `events`, from `start` on, a state whose wakes have
handles from `first` on: exactly one is pending; its delay is within bounds, or it was armed by a
wake that failed. -/
structure ReadTimer (env : Env) (first : ℕ) (start : World) (events : List Event) (w : World) :
    Prop where
  one : ∃ t, w.pending .wake = [t] ∧ first ≤ t.handle ∧ 100 ≤ t.delay ∧
    (t.delay ≤ 100 + largestInterval w.st ∨
      (t.delay = 100 + w.st.interval ∧ ∃ before event after e u, events = before ++ event :: after ∧
        FailedWake env (Runs.run (react env) start before) event e u ∧
        t ∉ (Runs.run (react env) start before).timers ∧
        t ∈ (Runs.run (react env) start (before ++ [event])).timers))

theorem ReadTimer.react {first : ℕ} {start : World} {events : List Event} {event : Event}
    (h : ReadTimer env first start events w) (hrun : Runs.run (react env) start events = w)
    (hw : Handled w) (hinterval : 20 ≤ w.st.interval) (hfirst : first ≤ w.nextTimer)
    (hwakes : Wakes env event w (Firmware.react env w event)) :
    ReadTimer env first start (events ++ [event]) (Firmware.react env w event) := by
  have hrun' : Runs.run (Firmware.react env) start (events ++ [event]) =
      Firmware.react env w event := by
    rw [Runs.run_append, hrun]
    rfl
  rcases hwakes.wake with ⟨hslot, hrhythm⟩ | harmed | ⟨⟨e, u, hfailed⟩, hretrying⟩
  · obtain ⟨t, hpending, hhandle, hlow, hdelay⟩ := h.one
    refine ⟨t, (congrArg Prod.fst hslot).trans hpending, hhandle, hlow, ?_⟩
    have hkept : (Firmware.react env w event).st.interval = w.st.interval :=
      congrArg Prod.fst hrhythm
    rw [largestInterval_congr hrhythm, hkept]
    refine hdelay.imp_right ?_
    rintro ⟨hretry, before, failed, after, e, u, rfl, hfailed⟩
    exact ⟨hretry, before, failed, after ++ [event], e, u, by simp, hfailed⟩
  · obtain ⟨t, hpending, hhandle, hlow, hhigh⟩ := harmed.wake
    exact ⟨t, hpending, hfirst.trans hhandle, hlow, .inl hhigh⟩
  · obtain ⟨t, hpending, hhandle, hdelay⟩ := hretrying.wake
    have hlow := hwakes.interval hinterval
    have hslack : READ_SLACK = 100 := rfl
    refine ⟨t, hpending, hfirst.trans hhandle, by omega,
      .inr ⟨hdelay, events, event, [], e, u, rfl, ?_, ?_, ?_⟩⟩
    · rw [hrun]
      exact hfailed
    · rw [hrun]
      intro hold
      have hlt := hw.used t.job t.handle (hw.held t hold)
      omega
    · rw [hrun']
      have hmem : t ∈ (Firmware.react env w event).pending .wake := by
        rw [hpending]
        exact List.mem_singleton_self t
      exact (World.mem_pending.mp hmem).1

/-- What is carried through a run: the timeouts are those whose handles are kept, and the wake is
as it should be. -/
theorem read_timer_run {first : ℕ} {start : World} (hstart : Handled start)
    (hsome : start.st.plan.ordered ≠ []) (hinterval : 20 ≤ start.st.interval)
    (hfirst : first ≤ start.nextTimer) (harmed : Armed first start) {events : List Event}
    (halong : Runs.Along (react env) (WakeReported env) start events) :
    let w := Runs.run (react env) start events
    Handled w ∧ w.st.plan.ordered ≠ [] ∧ 20 ≤ w.st.interval ∧ first ≤ w.nextTimer ∧
      ReadTimer env first start events w := by
  -- from the end, since what the last event may do depends on the run before it
  induction events using List.reverseRecOn with
  | nil =>
      obtain ⟨t, hpending, hhandle, hlow, hhigh⟩ := harmed.wake
      exact ⟨hstart, hsome, hinterval, hfirst, ⟨t, hpending, hhandle, hlow, .inl hhigh⟩⟩
  | append_singleton events event ih =>
      obtain ⟨hbefore, hlast⟩ := Runs.along_concat.mp halong
      obtain ⟨hw, hsome, hinterval, hfirst, htimer⟩ := ih hbefore
      have hwakes := wakes_react hw hsome hlast
      have hstep := htimer.react rfl hw hinterval hfirst hwakes
      rw [Runs.run_append]
      exact ⟨hw.react env event, hwakes.ordered, hwakes.interval hinterval,
        hfirst.trans hwakes.next, hstep⟩

/-- After a `setup()` that returned or threw because of a refused packet, on a device that has been
set up any number of times before, exactly one wake is pending in every state, at a delay within
bounds; only one that retries after a failed wake may be armed for longer. -/
theorem read_timer_armed (env : Env) (file : Option MarksFile) (earlier : List BoardEvent)
    (opts : SetupOpts) (b b' : Board) (st : St) (events : List Event)
    (hb : b = Runs.run (Board.step env) (Board.powerOn file) earlier)
    (hsetup : setup env opts b = .ok () b' ∨
      ∃ e, setup env opts b = .error e b' ∧ e.code = some .advertisingRejected)
    (hst : b'.st = some st) (hsome : st.plan.ordered ≠ [])
    (halong : Runs.Along (react env) (WakeReported env) (b'.world st) events) :
    ReadTimer env b.nextTimer (b'.world st) events
      (Runs.run (react env) (b'.world st) events) := by
  have htidy : Tidy b := hb ▸ tidy_run env file earlier
  obtain ⟨hhandled, hinterval, hnext, harmed⟩ := armed_setup htidy hsetup hst hsome
  exact (read_timer_run hhandled hsome hinterval hnext harmed halong).2.2.2.2

set_option maxRecDepth 4000 in
/-- One `update()` of the device without a key. -/
theorem read_timer_armed_sample :
    ReadTimer sampleEnv 1 (plainBoard.world plainSt) [.update]
      (Runs.run (react sampleEnv) (plainBoard.world plainSt) [.update]) :=
  read_timer_armed sampleEnv none [] sampleOpts (Board.powerOn none) plainBoard plainSt [.update]
    rfl (.inl rfl) (Option.some_get _).symm (by decide) ⟨fun _ _ _ _ => rfl, trivial⟩

/-- A battery that is read every 100 ms, and cannot be read any more once `setup()` is over. -/
def drainedOpts (onError : Bool) : SetupOpts :=
  { sampleOpts with
    advertise := [{ sampleBattery with interval := some 100 }]
    interval := none
    onError := onError }

def drainedEnv : Env :=
  { sampleEnv with
    clock := fun n => 1000 * n
    read := fun n _ => if n < 8 then .ok ⟨0x01, [90]⟩ else .error ⟨none, "sensor not ready"⟩
    throws := fun _ call =>
      match call with
      | .onError _ => some ⟨none, "console is gone"⟩
      | _ => none }

/-- The device at its first wake. -/
def drained (onError : Bool) : Board :=
  Runs.run (Board.step drainedEnv) (Board.powerOn none)
    [.setup (drainedOpts onError), .on (.fire 1)]

def drainedWorld (onError : Bool) : World :=
  (drained onError).world ((drained onError).st.get (by cases onError <;> rfl))

/-- A wake that cannot read its one entry is armed for the advertising interval, which is the
longer one; and if its error goes to an `onError` that throws, none is armed at all. -/
theorem retry_outlasts_interval :
    ((drainedWorld false).pending .wake).map (·.delay) = [2100] ∧
      largestInterval (drainedWorld false).st = 100 ∧
      (¬ ∃ t, (drainedWorld false).pending .wake = [t] ∧ 100 ≤ t.delay ∧
        t.delay ≤ 100 + largestInterval (drainedWorld false).st) ∧
      (drainedWorld true).pending .wake = [] := by
  have hdelay : ((drainedWorld false).pending .wake).map (·.delay) = [2100] := by rfl
  have hlargest : largestInterval (drainedWorld false).st = 100 := by rfl
  refine ⟨hdelay, hlargest, ?_, rfl⟩
  rintro ⟨t, hpending, -, hhigh⟩
  rw [hpending] at hdelay
  have htwo : t.delay = 2100 := by simpa using hdelay
  omega

end BTHomeWritable.Firmware
