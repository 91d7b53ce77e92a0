import BTHomeWritable.Firmware.Plans

/-!
# Timeouts

`st` keeps one handle for each job a timeout may have.  `Handled` says that
every pending timeout is the one whose handle `st` keeps for its job, so that
clearing by handle clears it and nothing else.

Every event keeps this, and moves the timeouts of a few jobs only: `Slots jobs` is
the relation between a world and one in which no other job has had its timeout
touched.  It is a preorder, and so the frames of the programs are frames for it.

* `Arms` and `Clears` say what an assignment does that arms or clears the timeout
  of one job; `Arms.slots` and `Clears.slots` are its steps.
* Program by program: `slots_schedule`, `slots_goFast`, `slots_wake`,
  `slots_changed`, `slots_publishChange` and the rest.
* `slot_react` is an event as a whole: `touched` lists the jobs it may move.

A `setup()` clears the timeouts of the state it replaces, so that the new one
starts with none (`Tidy.swap`).  `Tidy` says it of a `Board`, which may not have
been set up yet, and `tidy_run` of every run.
-/

namespace BTHomeWritable.Firmware

open Device Throwing

variable {env : Env} {w : World}

/-- The handle `st` keeps for the timeout of `job`. -/
def St.handleOf (st : St) : Job → Option ℕ
  | .wake => st.timer
  | .goIdle => st.fastTimer
  | .publishChange => st.changeTimer

/-- The pending timeouts of `job`. -/
def World.pending (w : World) (job : Job) : List Timer := w.timers.filter (·.job = job)

@[simp] theorem World.mem_pending {job : Job} {t : Timer} :
    t ∈ w.pending job ↔ t ∈ w.timers ∧ t.job = job := by
  simp [World.pending]

structure Handled (w : World) : Prop where
  held : ∀ t ∈ w.timers, w.st.handleOf t.job = some t.handle
  used : ∀ job handle, w.st.handleOf job = some handle → handle < w.nextTimer
  apart : ∀ job job' handle, w.st.handleOf job = some handle →
    w.st.handleOf job' = some handle → job = job'
  nodup : (w.timers.map (·.handle)).Nodup

/-- The timeouts of `job` and the handle kept for them. -/
def slot (job : Job) (w : World) : List Timer × Option ℕ := (w.pending job, w.st.handleOf job)

/-- Only timeouts of `jobs` were touched. -/
def Slots (jobs : List Job) (w w' : World) : Prop :=
  Handled w → Handled w' ∧ w.nextTimer ≤ w'.nextTimer ∧ ∀ job ∉ jobs, slot job w' = slot job w

instance (jobs : List Job) : IsPreorder World (Slots jobs) where
  refl _ h := ⟨h, le_rfl, fun _ _ => rfl⟩
  trans _ _ _ h h' hw := by
    obtain ⟨hu, hnext, hslots⟩ := h hw
    obtain ⟨hv, hnext', hslots'⟩ := h' hu
    exact ⟨hv, hnext.trans hnext', fun job hjob => (hslots' job hjob).trans (hslots job hjob)⟩

theorem Slots.mono {jobs jobs' : List Job} {w' : World} (h : Slots jobs w w')
    (hsub : ∀ job ∈ jobs, job ∈ jobs') : Slots jobs' w w' := by
  intro hw
  obtain ⟨hw', hnext, hslots⟩ := h hw
  exact ⟨hw', hnext, fun job hjob => hslots job fun hmem => hjob (hsub job hmem)⟩

/-! ## Assignments -/

/-- Everything of a world that timeouts are about. -/
def clockwork (w : World) : List Timer × ℕ × Option ℕ × Option ℕ × Option ℕ :=
  (w.timers, w.nextTimer, w.st.timer, w.st.fastTimer, w.st.changeTimer)

theorem slots_of_clockwork {jobs : List Job} {w' : World} (h : clockwork w' = clockwork w) :
    Slots jobs w w' := by
  simp only [clockwork, Prod.mk.injEq] at h
  obtain ⟨htimers, hnext, htimer, hfast, hchange⟩ := h
  have hhandle : ∀ job, w'.st.handleOf job = w.st.handleOf job := by
    intro job
    cases job <;> assumption
  intro hw
  refine ⟨⟨?_, ?_, ?_, ?_⟩, hnext.ge, fun job _ => ?_⟩
  · intro t ht
    rw [hhandle]
    exact hw.held t (htimers ▸ ht)
  · intro job handle hkept
    rw [hnext]
    exact hw.used job handle (hhandle job ▸ hkept)
  · intro job job' handle hkept hkept'
    exact hw.apart job job' handle (hhandle job ▸ hkept) (hhandle job' ▸ hkept')
  · rw [htimers]
    exact hw.nodup
  · simp only [slot, World.pending, htimers, hhandle]

theorem Handled.congr {w' : World} (h : Handled w) (hclock : clockwork w' = clockwork w) :
    Handled w' :=
  have hslots : Slots [] w w' := slots_of_clockwork hclock
  (hslots h).1

theorem slots_of_keeps {α : Type} {jobs : List Job} {p : Fw α} (h : Frame (Keeps clockwork) p) :
    Frame (Slots jobs) p := fun w => slots_of_clockwork (h w)

/-- A job without a handle has no timeout pending. -/
theorem Handled.pending_nil (h : Handled w) {job : Job} (hnone : w.st.handleOf job = none) :
    w.pending job = [] := by
  rw [List.eq_nil_iff_forall_not_mem]
  intro t ht
  obtain ⟨hmem, rfl⟩ := World.mem_pending.mp ht
  rw [h.held t hmem] at hnone
  cases hnone

/-- Two pending timeouts of one job are the same. -/
theorem Handled.eq_of_job (h : Handled w) {t t' : Timer} (ht : t ∈ w.timers) (ht' : t' ∈ w.timers)
    (hjob : t.job = t'.job) : t = t' := by
  have hhandle : t.handle = t'.handle := by
    have heq := (h.held t ht).symm.trans (hjob ▸ h.held t' ht')
    exact Option.some.inj heq
  exact List.inj_on_of_nodup_map h.nodup ht ht' hhandle

theorem Handled.eq_of_handle (h : Handled w) {t t' : Timer} (ht : t ∈ w.timers)
    (ht' : t' ∈ w.timers) (hhandle : t.handle = t'.handle) : t = t' :=
  List.inj_on_of_nodup_map h.nodup ht ht' hhandle

theorem Handled.find?_eq (h : Handled w) {t : Timer} (ht : t ∈ w.timers) :
    w.timers.find? (·.handle = t.handle) = some t := by
  cases hfound : w.timers.find? (·.handle = t.handle) with
  | none => simpa using List.find?_eq_none.mp hfound t ht
  | some t' =>
      have hhandle : t'.handle = t.handle := by simpa using List.find?_some hfound
      rw [h.eq_of_handle (List.mem_of_find?_eq_some hfound) ht hhandle]

theorem Handled.pending_eq (h : Handled w) {t : Timer} (ht : t ∈ w.timers) :
    w.pending t.job = [t] := by
  have hmem : t ∈ w.pending t.job := World.mem_pending.mpr ⟨ht, rfl⟩
  have hall : ∀ t' ∈ w.pending t.job, t' = t := by
    intro t' ht'
    obtain ⟨hmem', hjob⟩ := World.mem_pending.mp ht'
    exact h.eq_of_job hmem' ht hjob
  have hnodup : (w.pending t.job).Nodup := (List.Nodup.of_map _ h.nodup).filter _
  exact List.perm_singleton.mp <| (List.perm_ext_iff_of_nodup hnodup (by simp)).mpr fun t' => by
    simp only [List.mem_singleton]
    exact ⟨hall t', fun heq => heq ▸ hmem⟩

/-- The timeout of another job has another handle. -/
theorem Handled.handle_ne (h : Handled w) {job : Job} {handle : ℕ}
    (hkept : w.st.handleOf job = some handle) {t : Timer} (ht : t ∈ w.timers)
    (hjob : t.job ≠ job) : t.handle ≠ handle := by
  rintro rfl
  exact hjob (h.apart _ _ _ (h.held t ht) hkept)

theorem Handled.pending_clearTimeout (h : Handled w) {job other : Job} {handle : ℕ}
    (hkept : w.st.handleOf job = some handle) :
    (w.clearTimeout handle).pending other = if other = job then [] else w.pending other := by
  split
  · rename_i heq
    subst heq
    rw [List.eq_nil_iff_forall_not_mem]
    intro t ht
    obtain ⟨hmem, rfl⟩ := World.mem_pending.mp ht
    simp only [World.clearTimeout, List.mem_filter, decide_eq_true_eq] at hmem
    have hheld := h.held t hmem.1
    rw [hkept] at hheld
    exact hmem.2 (Option.some.inj hheld).symm
  · rename_i hother
    simp only [World.pending, World.clearTimeout, List.filter_filter]
    refine List.filter_congr fun t ht => ?_
    by_cases hjob : t.job = other
    · have hne := h.handle_ne hkept ht fun heq => hother (hjob.symm.trans heq)
      simp [hjob, hne]
    · simp [hjob]

/-- Clearing by handle keeps the rest in place. -/
theorem Handled.clearTimeout (h : Handled w) (handle : ℕ) : Handled (w.clearTimeout handle) where
  held t ht := h.held t (List.mem_of_mem_filter ht)
  used := h.used
  apart := h.apart
  nodup := h.nodup.sublist (List.filter_sublist.map _)

/-- The handle of a job goes that has no timeout pending any more. -/
theorem Handled.drop (h : Handled w) {w' : World} {job : Job} (htimers : w'.timers = w.timers)
    (hnext : w'.nextTimer = w.nextTimer) (hgone : w.pending job = [])
    (hdropped : w'.st.handleOf job = none)
    (hothers : ∀ other ≠ job, w'.st.handleOf other = w.st.handleOf other) : Handled w' := by
  have hkept : ∀ {other : Job} {handle : ℕ}, w'.st.handleOf other = some handle →
      w.st.handleOf other = some handle := by
    intro other handle hkept
    by_cases hjob : other = job
    · rw [hjob, hdropped] at hkept
      cases hkept
    · rw [← hothers other hjob]
      exact hkept
  refine ⟨?_, ?_, ?_, ?_⟩
  · intro t ht
    rw [htimers] at ht
    have hjob : t.job ≠ job := by
      rintro rfl
      have hmem : t ∈ w.pending t.job := World.mem_pending.mpr ⟨ht, rfl⟩
      rw [hgone] at hmem
      cases hmem
    rw [hothers _ hjob]
    exact h.held t ht
  · intro other handle hhandle
    rw [hnext]
    exact h.used other handle (hkept hhandle)
  · intro other other' handle hhandle hhandle'
    exact h.apart _ _ _ (hkept hhandle) (hkept hhandle')
  · rw [htimers]
    exact h.nodup

/-- `w'` is `w` with a timeout of `job` armed. -/
structure Arms (job : Job) (delay : ℤ) (w w' : World) : Prop where
  timers : w'.timers = w.timers ++ [⟨w.nextTimer, job, delay⟩]
  next : w'.nextTimer = w.nextTimer + 1
  kept : w'.st.handleOf job = some w.nextTimer
  others : ∀ other ≠ job, w'.st.handleOf other = w.st.handleOf other

theorem arms_setTimer (delay : ℤ) : Arms .wake delay w (w.setTimer delay) where
  timers := rfl
  next := rfl
  kept := rfl
  others other h := by cases other <;> first | rfl | exact absurd rfl h

theorem arms_setFastTimer : Arms .goIdle w.st.fastTimeout w w.setFastTimer where
  timers := rfl
  next := rfl
  kept := rfl
  others other h := by cases other <;> first | rfl | exact absurd rfl h

theorem arms_setChangeTimer : Arms .publishChange CHANGE_HOLD w w.setChangeTimer where
  timers := rfl
  next := rfl
  kept := rfl
  others other h := by cases other <;> first | rfl | exact absurd rfl h

theorem Arms.pending {job other : Job} {delay : ℤ} {w' : World} (h : Arms job delay w w') :
    w'.pending other =
      w.pending other ++ if other = job then [⟨w.nextTimer, job, delay⟩] else [] := by
  unfold World.pending
  rw [h.timers, List.filter_append]
  by_cases hjob : other = job
  · simp [hjob]
  · simp [hjob, Ne.symm hjob]

theorem Arms.handled {job : Job} {delay : ℤ} {w' : World} (h : Arms job delay w w')
    (hw : Handled w) (hgone : w.pending job = []) : Handled w' := by
  have hkept : ∀ {other : Job} {handle : ℕ}, w'.st.handleOf other = some handle →
      other = job ∧ handle = w.nextTimer ∨ other ≠ job ∧ w.st.handleOf other = some handle := by
    intro other handle hkept
    by_cases hjob : other = job
    · subst hjob
      rw [h.kept] at hkept
      exact .inl ⟨rfl, (Option.some.inj hkept).symm⟩
    · rw [h.others other hjob] at hkept
      exact .inr ⟨hjob, hkept⟩
  -- handles only grow, so the one just given is nobody else's
  have hold : ∀ t ∈ w.timers, t.handle < w.nextTimer := fun t ht =>
    hw.used t.job t.handle (hw.held t ht)
  refine ⟨?_, ?_, ?_, ?_⟩
  · intro t ht
    rw [h.timers, List.mem_append, List.mem_singleton] at ht
    rcases ht with ht | rfl
    · have hjob : t.job ≠ job := by
        rintro rfl
        have hmem : t ∈ w.pending t.job := World.mem_pending.mpr ⟨ht, rfl⟩
        rw [hgone] at hmem
        cases hmem
      rw [h.others _ hjob]
      exact hw.held t ht
    · exact h.kept
  · intro other handle hhandle
    rw [h.next]
    rcases hkept hhandle with ⟨-, rfl⟩ | ⟨-, hhandle⟩
    · omega
    · exact (hw.used other handle hhandle).trans (Nat.lt_succ_self _)
  · intro other other' handle hhandle hhandle'
    rcases hkept hhandle with ⟨rfl, rfl⟩ | ⟨-, hhandle⟩
    · rcases hkept hhandle' with ⟨rfl, -⟩ | ⟨-, hhandle'⟩
      · rfl
      · exact absurd (hw.used _ _ hhandle') (lt_irrefl _)
    · rcases hkept hhandle' with ⟨-, rfl⟩ | ⟨-, hhandle'⟩
      · exact absurd (hw.used _ _ hhandle) (lt_irrefl _)
      · exact hw.apart _ _ _ hhandle hhandle'
  · rw [h.timers, List.map_append, List.nodup_append]
    refine ⟨hw.nodup, by simp, ?_⟩
    intro handle hhandle handle' hhandle'
    obtain ⟨t, ht, rfl⟩ := List.mem_map.mp hhandle
    simp only [List.map_cons, List.map_nil, List.mem_singleton] at hhandle'
    have hlt := hold t ht
    omega

theorem Arms.slots {job : Job} {delay : ℤ} {w' : World} (h : Arms job delay w w')
    (hgone : w.pending job = []) : Slots [job] w w' := by
  intro hw
  refine ⟨h.handled hw hgone, by rw [h.next]; omega, fun other hother => ?_⟩
  rw [List.mem_singleton] at hother
  simp only [slot, h.pending, if_neg hother, List.append_nil, h.others other hother]

/-- `w'` is `w` without the timeout of `job` and the handle kept for it. -/
structure Clears (job : Job) (w w' : World) : Prop where
  timers : w'.timers =
    (w.st.handleOf job).elim w.timers fun handle => w.timers.filter (·.handle ≠ handle)
  next : w'.nextTimer = w.nextTimer
  dropped : w'.st.handleOf job = none
  others : ∀ other ≠ job, w'.st.handleOf other = w.st.handleOf other

theorem clears_clearTimer : Clears .wake w w.clearTimer := by
  unfold World.clearTimer
  cases h : w.st.timer with
  | none => exact ⟨by simp [St.handleOf, h], rfl, h, fun _ _ => rfl⟩
  | some handle =>
      refine ⟨by simp [St.handleOf, h, World.clearTimeout], rfl, rfl, fun other hother => ?_⟩
      cases other <;> first | rfl | exact absurd rfl hother

theorem clears_clearFastTimer : Clears .goIdle w w.clearFastTimer := by
  unfold World.clearFastTimer
  cases h : w.st.fastTimer with
  | none => exact ⟨by simp [St.handleOf, h], rfl, h, fun _ _ => rfl⟩
  | some handle =>
      refine ⟨by simp [St.handleOf, h, World.clearTimeout], rfl, rfl, fun other hother => ?_⟩
      cases other <;> first | rfl | exact absurd rfl hother

theorem Clears.pending {job other : Job} {w' : World} (h : Clears job w w') (hw : Handled w) :
    w'.pending other = if other = job then [] else w.pending other := by
  cases hhandle : w.st.handleOf job with
  | none =>
      have hsame : w'.pending other = w.pending other := by
        simp only [World.pending, h.timers, hhandle, Option.elim_none]
      rw [hsame]
      split
      · rename_i heq
        rw [heq]
        exact hw.pending_nil hhandle
      · rfl
  | some handle =>
      have hsame : w'.pending other = (w.clearTimeout handle).pending other := by
        simp only [World.pending, h.timers, hhandle, Option.elim_some, World.clearTimeout]
      rw [hsame, hw.pending_clearTimeout hhandle]

theorem Clears.handled {job : Job} {w' : World} (h : Clears job w w') (hw : Handled w) :
    Handled w' := by
  have hothers := h.others
  cases hhandle : w.st.handleOf job with
  | none =>
      refine hw.drop ?_ h.next (hw.pending_nil hhandle) h.dropped hothers
      rw [h.timers, hhandle, Option.elim_none]
  | some handle =>
      refine (hw.clearTimeout handle).drop ?_ h.next ?_ h.dropped hothers
      · rw [h.timers, hhandle, Option.elim_some]
        rfl
      · rw [hw.pending_clearTimeout hhandle, if_pos rfl]

theorem Clears.slots {job : Job} {w' : World} (h : Clears job w w') : Slots [job] w w' := by
  intro hw
  refine ⟨h.handled hw, h.next.ge, fun other hother => ?_⟩
  rw [List.mem_singleton] at hother
  simp only [slot, h.pending hw, if_neg hother, h.others other hother]

/-- Clearing the timeout of a job and arming it again. -/
theorem Slots.rearm {job : Job} {delay : ℤ} {u w' : World} (hclear : Clears job w u)
    (harm : Arms job delay u w') : Slots [job] w w' := by
  intro hw
  have hgone : u.pending job = [] := by rw [hclear.pending hw, if_pos rfl]
  exact trans_of (Slots [job]) hclear.slots (harm.slots hgone) hw

/-! ## Programs -/

theorem clockwork_refreshKeeps : RefreshKeeps clockwork where
  render w r := rfl

theorem clockwork_serveKeeps : ServeKeeps clockwork where

theorem clockwork_writeKeeps : WriteKeeps clockwork where

/-- What `schedule` leaves. -/
def scheduled (env : Env) (w : World) : World :=
  let due := nextDue (env.clock w.calls) w.st.interval w.st.plan.ordered
  let v := w.clearTimer.asked.setOrdered due.1
  due.2.elim v fun wait => v.setTimer (max wait 0 + READ_SLACK)

theorem World.clearTimer_eq (w : World) :
    ∃ timers, w.clearTimer = { w with timers := timers, st := { w.st with timer := none } } := by
  unfold World.clearTimer
  cases h : w.st.timer with
  | none =>
      refine ⟨w.timers, ?_⟩
      show w = { w with timers := w.timers, st := { w.st with timer := none } }
      rw [← h]
  | some handle => exact ⟨_, rfl⟩

theorem schedule_eq (env : Env) (w : World) : schedule env w = .ok () (scheduled env w) := by
  unfold schedule scheduled
  rw [update_bind]
  obtain ⟨timers, hclear⟩ := w.clearTimer_eq
  rw [hclear]
  cases hdue : nextDue (env.clock w.calls) w.st.interval w.st.plan.ordered with
  | mk ordered wait =>
      cases wait <;>
        simp [bind_apply, getTime, settleDue, World.asked, hdue, World.setOrdered, World.setPlan]

theorem slots_scheduled (env : Env) (w : World) : Slots [.wake] w (scheduled env w) := by
  have hclear : ∀ ordered, Clears .wake w (w.clearTimer.asked.setOrdered ordered) := fun ordered =>
    have h : Clears .wake w w.clearTimer := clears_clearTimer
    ⟨h.timers, h.next, h.dropped, h.others⟩
  unfold scheduled
  dsimp only
  cases (nextDue (env.clock w.calls) w.st.interval w.st.plan.ordered).2 with
  | none => exact (hclear _).slots
  | some wait => exact Slots.rearm (hclear _) (arms_setTimer _)

theorem slots_schedule : Frame (Slots [.wake]) (schedule env) := by
  intro w
  rw [left_ok (schedule_eq env w)]
  exact slots_scheduled env w

theorem clockwork_readAndRefresh : Frame (Keeps clockwork) (readAndRefresh env) :=
  Frame.bind (keeps_readSensors (fun _ => rfl) fun _ _ _ => rfl) fun _ =>
    Frame.bind (Frame.doIf ((clockwork_refreshKeeps).refreshAdvertising true)) fun _ => Frame.pure _

theorem slots_tick : Frame (Slots [.wake]) (tick env) :=
  frame_tick (slots_of_keeps clockwork_readAndRefresh) slots_schedule
    fun _ => slots_of_clockwork rfl

theorem slots_goFast : Frame (Slots [.goIdle]) goFast := by
  refine Frame.bind (Frame.update fun w => (clears_clearFastTimer).slots) fun _ => ?_
  refine Frame.bind (Frame.look id) fun w => ?_
  split
  · exact Frame.pure false
  · exact Frame.bind (Frame.update fun w => slots_of_clockwork rfl) fun _ => Frame.pure true

theorem slots_goIdleAfterTimeout : Frame (Slots [.goIdle]) goIdleAfterTimeout := by
  intro w
  show Slots [.goIdle] w w.clearFastTimer.setFastTimer
  exact Slots.rearm clears_clearFastTimer arms_setFastTimer

theorem slots_reaction : Frame (Slots [.wake, .goIdle]) (reaction env) :=
  frame_reaction ((slots_goFast).mono fun _ _ h => h.mono (by simp))
    ((slots_tick).mono fun _ _ h => h.mono (by simp))
    (slots_of_keeps (clockwork_refreshKeeps).republishRate)

theorem slots_report {jobs : List Job} (e : JsError) : Frame (Slots jobs) (report env e) :=
  slots_of_keeps (keeps_report (fun _ => rfl) e)

theorem slots_guarded {jobs : List Job} {p : Fw Unit} (hp : Frame (Slots jobs) p) :
    Frame (Slots jobs) (guarded env p) := Frame.attempt hp slots_report

theorem slots_changed : Frame (Slots [.publishChange]) changed := by
  intro w
  unfold changed
  rw [left_bind_of_ok (look_apply id w), id_eq]
  split
  · exact refl_of (Slots _) w
  split
  · exact refl_of (Slots _) w
  · rename_i hopen
    have hnone : w.st.changeTimer = none := by simpa using hopen
    intro hw
    exact (arms_setChangeTimer).slots (hw.pending_nil hnone) hw

/-- `setAdvertisingInterval` up to where it arms the read timer. -/
def World.retime (v : ℤ) (w : World) : World :=
  { w with st := { w.st with interval := v } }.setOrdered
    (w.st.plan.ordered.map (inheritInterval w.st.entries v))

/-- The rest of `setAdvertisingInterval`: the rate on air follows, unless a return to idle is
pending. -/
def followInterval (env : Env) (v : ℤ) : Fw ℤ := do
  let w ← look id
  doIf (w.st.fastTimer = none ∧ w.st.advInterval ≠ w.st.interval) do
    update (World.setAdvInterval · w.st.interval)
    republishRate env
  pure v

theorem setAdvertisingInterval_of_ok {ms v : ℤ} (h : checkInterval "interval" ms = .ok v) :
    setAdvertisingInterval env ms w = followInterval env v (scheduled env (w.retime v)) := by
  unfold setAdvertisingInterval
  rw [h]
  show (do schedule env; followInterval env v : Fw ℤ) (w.retime v) = _
  exact bind_of_ok (schedule_eq env _)

theorem setAdvertisingInterval_of_error {ms : ℤ} {e : JsError}
    (h : checkInterval "interval" ms = .error e) :
    setAdvertisingInterval env ms w = .error e w := by
  unfold setAdvertisingInterval
  rw [h]
  rfl

theorem slots_followInterval (v : ℤ) : Frame (Slots []) (followInterval env v) := by
  refine Frame.bind (Frame.look id) fun w => Frame.bind (Frame.doIf ?_) fun _ => Frame.pure _
  exact Frame.bind (Frame.update fun w => slots_of_clockwork rfl) fun _ =>
    slots_of_keeps (clockwork_refreshKeeps).republishRate

theorem slots_setAdvertisingInterval (ms : ℤ) :
    Frame (Slots [.wake]) (setAdvertisingInterval env ms) := by
  intro w
  cases hcheck : checkInterval "interval" ms with
  | error e =>
      rw [left_error (setAdvertisingInterval_of_error hcheck)]
      exact refl_of (Slots _) w
  | ok v =>
      have hretimed : Slots [.wake] w (w.retime v) := slots_of_clockwork rfl
      have hscheduled := trans_of (Slots [.wake]) hretimed (slots_scheduled env _)
      rw [left_congr (setAdvertisingInterval_of_ok hcheck)]
      exact trans_of (Slots _) hscheduled ((slots_followInterval v _).mono (by simp))

theorem slots_updateNow : Frame (Slots [.wake]) (updateNow env) := by
  refine Frame.bind (Frame.update fun w => slots_of_clockwork rfl) fun _ => ?_
  refine Frame.bind (slots_of_keeps ((clockwork_refreshKeeps).refreshAdvertising false)) fun _ => ?_
  exact Frame.bind slots_schedule fun _ => Frame.update fun w => slots_of_clockwork rfl

/-! ## Timeouts that fire -/

theorem tick_error {e : JsError} {u : World} (h : tick env w = .error e u) :
    readAndRefresh env w = .error e u := by
  rw [tick_eq] at h
  rcases bind_error.mp h with h | ⟨moved, v, -, h⟩
  · exact h
  · rw [bind_of_ok (schedule_eq env v)] at h
    cases h

/-- `wake` after a `tick` that threw. -/
def retry (env : Env) (e : JsError) : Fw Unit := do
  report env e
  update fun w => w.setTimer (w.st.interval + READ_SLACK)

theorem wake_of_ok {moved : Bool} {u : World} (h : tick env w = .ok moved u) :
    wake env w = .ok () u := attempt_of_ok (bind_of_ok h)

theorem wake_of_error {e : JsError} {u : World} (h : tick env w = .error e u) :
    wake env w = retry env e u := attempt_of_error (bind_of_error h)

theorem slots_retry (e : JsError) (hgone : w.pending .wake = []) :
    Slots [.wake] w (left (retry env e) w) := by
  intro hw
  refine left_bind (I := fun u => Handled u ∧ w.nextTimer ≤ u.nextTimer ∧
    ∀ job ∉ [Job.wake], slot job u = slot job w) (slots_report e w hw) ?_
  rintro _ u hreported -
  have hkept : clockwork u = clockwork w := (keeps_report (fun _ => rfl) e).ok hreported
  have hnone : u.pending .wake = [] := by
    rw [← hgone]
    exact congrArg (fun c => c.1.filter (·.job = .wake)) hkept
  exact trans_of (Slots [.wake]) (slots_of_clockwork hkept) ((arms_setTimer _).slots hnone) hw

theorem slots_wake (hgone : w.pending .wake = []) : Slots [.wake] w (left (wake env) w) := by
  cases htick : tick env w with
  | ok moved u =>
      rw [left_ok (wake_of_ok htick)]
      exact (slots_tick).ok htick
  | error e u =>
      have hleft : left (wake env) w = left (retry env e) u := left_congr (wake_of_error htick)
      have hkept : clockwork u = clockwork w := (clockwork_readAndRefresh).error (tick_error htick)
      rw [hleft]
      refine trans_of (Slots [.wake]) (slots_of_clockwork hkept) (slots_retry e ?_)
      rw [← hgone]
      exact congrArg (fun c => c.1.filter (·.job = .wake)) hkept

/-- `goIdle` up to where it publishes. -/
def World.slowDown (w : World) : World :=
  { w with st := { w.st with fastTimer := none, advInterval := w.st.interval } }

theorem slots_slowDown (hgone : w.pending .goIdle = []) : Slots [.goIdle] w w.slowDown := by
  intro hw
  have hothers : ∀ other ≠ Job.goIdle, w.slowDown.st.handleOf other = w.st.handleOf other := by
    intro other hother
    cases other <;> first | rfl | exact absurd rfl hother
  refine ⟨hw.drop rfl rfl hgone rfl hothers, le_rfl, fun job hjob => ?_⟩
  exact Prod.ext rfl (hothers job (by simpa using hjob))

theorem slots_goIdle (hgone : w.pending .goIdle = []) :
    Slots [.goIdle] w (left (goIdle env) w) := by
  unfold goIdle
  rw [left_bind_of_ok (update_apply _ w)]
  exact trans_of (Slots [.goIdle]) (slots_slowDown hgone)
    (slots_of_keeps (clockwork_refreshKeeps).republishRate _)

/-- `publishChange` up to where it publishes the values. -/
def World.countChange (w : World) : World :=
  { w with st := { w.st with changeTimer := none } }.bumpRevision

/-- The rest of `publishChange`. -/
def announce (env : Env) : Fw Unit := do
  let w ← look id
  publishReads env w.st.plan.writable
  refreshAdvertising env false
  schedule env
  update World.noteReturn

theorem publishChange_eq (env : Env) (w : World) :
    publishChange env w = announce env w.countChange := rfl

theorem slots_countChange (hgone : w.pending .publishChange = []) :
    Slots [.publishChange] w w.countChange := by
  intro hw
  have hothers : ∀ other ≠ Job.publishChange,
      w.countChange.st.handleOf other = w.st.handleOf other := by
    intro other hother
    cases other <;> first | rfl | exact absurd rfl hother
  refine ⟨hw.drop rfl rfl hgone rfl hothers, le_rfl, fun job hjob => ?_⟩
  exact Prod.ext rfl (hothers job (by simpa using hjob))

theorem slots_announce : Frame (Slots [.wake]) (announce env) := by
  refine Frame.bind (Frame.look id) fun w => ?_
  refine Frame.bind (slots_of_keeps ((clockwork_serveKeeps).publishReads _)) fun _ => ?_
  refine Frame.bind (slots_of_keeps ((clockwork_refreshKeeps).refreshAdvertising false)) fun _ => ?_
  exact Frame.bind slots_schedule fun _ => Frame.update fun w => slots_of_clockwork rfl

theorem slots_publishChange (hgone : w.pending .publishChange = []) :
    Slots [.wake, .publishChange] w (left (publishChange env) w) := by
  rw [left_congr (publishChange_eq env w)]
  exact trans_of (Slots _) ((slots_countChange hgone).mono (by simp))
    ((slots_announce _).mono (by simp))

/-- The jobs whose timeouts a job touches. -/
def Job.touches : Job → List Job
  | .wake => [.wake]
  | .goIdle => [.goIdle]
  | .publishChange => [.wake, .publishChange]

theorem slots_runJob {job : Job} (hgone : w.pending job = []) :
    Slots job.touches w (left (runJob env job) w) := by
  cases job with
  | wake => exact slots_wake hgone
  | goIdle => exact slots_goIdle hgone
  | publishChange =>
      exact left_attempt (I := Slots [.wake, .publishChange] w) (slots_publishChange hgone)
        fun e u _ hu => trans_of (Slots _) hu (slots_report e u)

theorem Handled.spend (hw : Handled w) {t : Timer} (ht : t ∈ w.timers) :
    Slots [t.job] w (w.clearTimeout t.handle) ∧ (w.clearTimeout t.handle).pending t.job = [] := by
  have hheld := hw.held t ht
  constructor
  · intro _
    refine ⟨hw.clearTimeout _, le_rfl, fun job hjob => Prod.ext ?_ rfl⟩
    refine (hw.pending_clearTimeout hheld).trans (if_neg ?_)
    rintro rfl
    simp at hjob
  · rw [hw.pending_clearTimeout hheld, if_pos rfl]

/-! ## Events -/

/-- The jobs whose timeouts an event touches. -/
def touched (w : World) : Event → List Job
  | .update | .setAdvertisingInterval _ => [.wake]
  | .changed => [.publishChange]
  | .setFastTimeout _ | .challenge _ | .turn => []
  | .write _ _ => [.wake, .goIdle]
  | .connect | .disconnect => [.goIdle]
  | .fire handle => (w.timers.find? (·.handle = handle)).elim [] fun t => t.job.touches

theorem find?_handle {handle : ℕ} {t : Timer} (h : w.timers.find? (·.handle = handle) = some t) :
    t ∈ w.timers ∧ t.handle = handle :=
  ⟨List.mem_of_find?_eq_some h, by simpa using List.find?_some h⟩

theorem slots_fire (handle : ℕ) :
    Slots (touched w (.fire handle)) w (fire env handle w) := by
  intro hw
  simp only [fire, touched]
  cases ht : w.timers.find? (·.handle = handle) with
  | none => exact refl_of (Slots _) w hw
  | some t =>
      obtain ⟨hmem, rfl⟩ := find?_handle ht
      obtain ⟨hspent, hgone⟩ := hw.spend hmem
      have hown : ∀ job ∈ [t.job], job ∈ t.job.touches := by
        cases t.job <;> simp [Job.touches]
      exact trans_of (Slots _) (hspent.mono hown) (slots_runJob hgone) hw

/-- What an event does to the timeouts. -/
theorem slots_react (event : Event) : Slots (touched w event) w (react env w event) := by
  cases event with
  | update => exact slots_updateNow w
  | changed => exact slots_changed w
  | setAdvertisingInterval ms => exact slots_setAdvertisingInterval ms w
  | setFastTimeout ms => exact slots_of_keeps (keeps_setFastTimeout (fun _ _ => rfl) ms) w
  | write k data =>
      have hwrite : Frame (Slots [.wake, .goIdle]) (onWrite env k data) :=
        frame_onWrite (fun _ _ => slots_of_clockwork) clockwork_writeKeeps slots_reaction k data
      have hstored : Slots [.wake, .goIdle] (left (onWrite env k data) w)
          (writeEvent env k data w) := slots_of_clockwork rfl
      exact trans_of (Slots _) (hwrite w) hstored
  | challenge data =>
      simp only [react]
      split
      · exact slots_of_keeps ((clockwork_writeKeeps).onChallenge data) w
      · exact refl_of (Slots _) w
  | connect =>
      simp only [react]
      split
      · refine slots_guarded ?_ w
        exact Frame.bind slots_goFast fun _ =>
          Frame.doIf (slots_of_keeps (clockwork_refreshKeeps).republishRate)
      · exact refl_of (Slots _) w
  | disconnect =>
      simp only [react]
      split
      · exact slots_guarded slots_goIdleAfterTimeout w
      · exact refl_of (Slots _) w
  | fire handle => exact slots_fire handle
  | turn =>
      exact slots_of_clockwork (((clockwork_serveKeeps).runAll (fun _ _ => rfl) _ _).trans rfl)

theorem Handled.react (h : Handled w) (env : Env) (event : Event) :
    Handled (Firmware.react env w event) := (slots_react event h).1

theorem slot_react (h : Handled w) {event : Event} {job : Job} (hjob : job ∉ touched w event) :
    slot job (react env w event) = slot job w := (slots_react event h).2.2 job hjob

/-! ## `setup()` -/

/-- The timeouts of a device, before or after its first `setup()`. -/
def Tidy (b : Board) : Prop := b.st.elim (b.timers = []) fun st => Handled (b.world st)

/-- `setup()` leaves no timeout of the state before. -/
theorem Tidy.swap {b : Board} {object : ℕ} {opts : SetupOpts} {o : Outside} {next : St}
    (h : Tidy b) (hnext : buildNext env opts object o = .ok next) :
    Handled (b.swap next) ∧ (b.swap next).timers = [] := by
  have hbuilt := built_of_buildNext hnext
  have htimers : (b.swap next).timers = [] := by
    unfold Tidy at h
    unfold Board.swap
    cases hst : b.st with
    | none =>
        rw [hst] at h
        exact h
    | some st =>
        rw [hst] at h
        rw [List.eq_nil_iff_forall_not_mem]
        intro t ht
        have hkeep := List.of_mem_filter ht
        have hheld := h.held t (List.mem_of_mem_filter ht)
        simp only [decide_eq_true_eq] at hkeep
        cases hjob : t.job <;> rw [hjob] at hheld
        · exact hkeep.1 hheld.symm
        · exact hkeep.2.1 hheld.symm
        · exact hkeep.2.2 hheld.symm
  have hnone : ∀ job, (b.swap next).st.handleOf job = none := by
    intro job
    cases job
    · exact hbuilt.timer
    · exact hbuilt.fastTimer
    · exact hbuilt.changeTimer
  refine ⟨⟨?_, ?_, ?_, ?_⟩, htimers⟩
  · simp [htimers]
  · intro job handle hkept
    rw [hnone] at hkept
    cases hkept
  · intro job job' handle hkept
    rw [hnone] at hkept
    cases hkept
  · simp [htimers]

theorem slots_attend : Frame (Slots [.wake]) (attend env) :=
  Frame.bind slots_schedule fun _ => Frame.update fun _ => slots_of_clockwork rfl

theorem slots_install {opts : SetupOpts} : Frame (Slots [.wake]) (install env opts) := by
  rw [install_eq]
  refine Frame.bind (slots_of_keeps ((clockwork_serveKeeps).claim (fun _ _ => rfl) opts))
    fun _ => ?_
  exact Frame.always (slots_of_keeps ((clockwork_refreshKeeps).refreshAdvertising false))
    slots_attend

theorem Tidy.setup {b : Board} (h : Tidy b) (opts : SetupOpts) :
    Tidy (left (setup env opts) b) := by
  unfold left Firmware.setup
  cases hnext : buildNext env opts b.nextObject b.toOutside with
  | error e =>
      simp only [Tidy] at h ⊢
      cases hst : b.st with
      | none =>
          rw [hst] at h
          exact h
      | some st =>
          rw [hst] at h
          exact ⟨h.held, h.used, h.apart, h.nodup⟩
  | ok next =>
      have hrun : Handled (left (install env opts) (b.swap next)) :=
        (slots_install _ (h.swap hnext).1).1
      unfold left at hrun
      simp only
      cases hinstall : install env opts (b.swap next) <;> rw [hinstall] at hrun <;> exact hrun

theorem Tidy.step {b : Board} (h : Tidy b) (env : Env) (event : BoardEvent) :
    Tidy (Board.step env b event) := by
  cases event with
  | setup opts => exact h.setup opts
  | on event =>
      unfold Board.step
      cases hst : b.st with
      | none => exact h
      | some st =>
          have hw : Handled (b.world st) := by
            simpa only [Tidy, hst, Option.elim_some] using h
          exact hw.react env event

theorem tidy_run (env : Env) (file : Option MarksFile) (events : List BoardEvent) :
    Tidy (Runs.run (Board.step env) (Board.powerOn file) events) :=
  Runs.run_invariant (fun _ event h _ => h.step env event) rfl
    (Runs.Along.of_forall fun _ _ => trivial)

end BTHomeWritable.Firmware
