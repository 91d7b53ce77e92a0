import BTHomeWritable.Firmware.Publishing
import BTHomeWritable.Firmware.Taking
import BTHomeWritable.Firmware.Timers

/-!
# What is on the air

Whether the air is up to date is lost where a reading or the revision has moved
and the packet for it does not get out, and where the radio takes the fallback
instead of a packet: `tick` remembers neither, and finds nothing to do at the
next wake.  `Lossless` says of an event that it does neither.  In a run of such
events every `tick`, `update` and `publishChange` that returns leaves the radio
with what the plan holds.

`Lossless` goes by the event, and is made of the conditions in the module on
publishing: `ReactionLossless` of a write, `JobLossless` of a timer, and
`ChangeLossless` of a window that expires, where the revision moves before the
packet is built (`Sound.countChange`).  `InSync.react` is the step lemma, one case
for each event; `inSync_setup` starts the run at a `setup()` that returned.

The result is `returns_match_air`.  In `fallback_stays_on_air` the radio refuses
the packet of an `update()` once, and the next wake finds nothing to do.
-/

namespace BTHomeWritable.Firmware

open Device Throwing

variable {env : Env} {w : World} {before : List Snapshot}

/-! ## Events that lose nothing -/

/-- What a `tick` leaves that found nothing to publish, from where the sensors have been read. -/
def rested (env : Env) (w : World) : World := (left (schedule env) w).noteReturn

def ReactionLossless (env : Env) (w : World) : Prop :=
  TickLossless env (left goFast w) ∧
    ∀ u v, goFast w = .ok true u → readSensors env u = .ok false v → RateLossless env (rested env v)

/-- The values are published, and then a packet with the new revision reaches the radio. -/
def ChangeLossless (env : Env) (w : World) : Prop :=
  ∃ u, publishReads env w.st.plan.writable w.countChange = .ok () u ∧ Renews env false u

def JobLossless (env : Env) : Job → World → Prop
  | .wake, w => TickLossless env w
  | .goIdle, w => RateLossless env w.slowDown
  | .publishChange, w => ChangeLossless env w

/-- `setAdvertisingInterval` up to where it has armed the read timer. -/
def retimed (env : Env) (ms : ℤ) (w : World) : World :=
  let w := { w with st := { w.st with interval := ms } }
  left (schedule env) (w.setOrdered (w.st.plan.ordered.map (inheritInterval w.st.entries ms)))

/-- The rate follows the interval at once, and what is published for it is not lost. -/
def IntervalLossless (env : Env) (w : World) : Prop :=
  w.st.fastTimer = none ∧ w.st.advInterval ≠ w.st.interval →
    RateLossless env (w.setAdvInterval w.st.interval)

/-- Nothing that is captured or counted in the event fails to reach the radio, and no fallback
takes the place of a packet. -/
def Lossless (env : Env) (w : World) : Event → Prop
  | .update => RefreshLossless env (w.setOrdered (forgetReads w.st.plan.ordered))
  | .setAdvertisingInterval ms =>
      (∃ v, checkInterval "interval" ms = .ok v) → IntervalLossless env (retimed env ms w)
  | .write k data => ∀ u, Takes env k data w u → ReactionLossless env u
  | .connect => ∀ u, w.listening = true → goFast w = .ok true u → RateLossless env u
  | .fire handle => ∀ t, w.timers.find? (·.handle = handle) = some t →
      JobLossless env t.job (w.clearTimeout handle)
  | .changed | .setFastTimeout _ | .challenge _ | .disconnect | .turn => True

/-! ## Programs -/

theorem InSync.guarded {p : Fw Unit} (h : InSync env before (outlook (left p w))) :
    InSync env before (outlook (left (guarded env p) w)) := by
  refine left_attempt (I := fun u => InSync env before (outlook u)) h ?_
  intro e t _ ht
  rw [(keeps_report outlook_sealKeeps.asked e).left_eq t]
  exact ht

theorem InSync.updateNow (h : InSync env before (outlook w))
    (hlossless : Lossless env w .update) :
    InSync env before (outlook (left (updateNow env) w)) := by
  have hforgot : outlook (w.setOrdered (forgetReads w.st.plan.ordered)) = outlook w :=
    outlook_setOrdered (by simp [forgetReads, Function.comp_def, Sensor.obj])
  unfold Firmware.updateNow
  rw [left_bind_of_ok (update_apply _ w)]
  refine left_bind (I := fun u => InSync env before (outlook u)) ?_ ?_
  · refine InSync.refresh ?_ hlossless
    rw [hforgot]
    exact h
  · intro _ t _ ht
    exact ht.finish fun _ => rfl

/-- Before a change is published, the air is behind on the revision at most. -/
theorem Sound.countChange (h : Sound env before (outlook w)) :
    Sound env before (outlook w.countChange) where
  whole :=
    { objs := h.whole.objs
      revision := by
        have hrev := h.whole.revision
        simpa [outlook, picture, World.countChange, World.bumpRevision] using hrev }
  noted := h.noted

theorem InSync.publishChange (h : InSync env before (outlook w))
    (hlossless : ChangeLossless env w) :
    InSync env before (outlook (left (publishChange env) w)) := by
  obtain ⟨u, hreads, hrenews⟩ := hlossless
  have hu : Sound env before (outlook u) := by
    rw [(outlook_serveKeeps.publishReads _).ok hreads]
    exact h.toSound.countChange
  show InSync env before (outlook (left (do
    publishReads env w.countChange.st.plan.writable
    refreshAdvertising env false
    schedule env
    update World.noteReturn : Fw Unit) w.countChange))
  have hreads' : publishReads env w.countChange.st.plan.writable w.countChange = .ok () u := hreads
  rw [left_bind_of_ok hreads']
  refine left_bind (I := fun u => InSync env before (outlook u)) (hu.renewed hrenews) ?_
  intro _ t _ ht
  exact ht.finish fun _ => rfl

theorem InSync.wake (h : InSync env before (outlook w)) (hlossless : TickLossless env w) :
    InSync env before (outlook (left (wake env) w)) := by
  refine left_attempt (I := fun u => InSync env before (outlook u)) ?_ ?_
  · refine left_bind (I := fun u => InSync env before (outlook u)) (h.tick hlossless) ?_
    exact fun _ t _ ht => ht
  · intro e t _ ht
    have hkept : Frame (Keeps outlook)
        (do report env e; update fun w => w.setTimer (w.st.interval + READ_SLACK) : Fw Unit) :=
      Frame.bind (keeps_report outlook_sealKeeps.asked e) fun _ => Frame.update fun _ => rfl
    rw [hkept.left_eq t]
    exact ht

theorem InSync.runJob (h : InSync env before (outlook w)) {job : Job}
    (hlossless : JobLossless env job w) :
    InSync env before (outlook (left (runJob env job) w)) := by
  cases job with
  | wake => exact h.wake hlossless
  | goIdle =>
      show InSync env before (outlook (left (goIdle env) w))
      unfold goIdle
      rw [left_bind_of_ok (update_apply _ w)]
      exact InSync.republishRate h hlossless
  | publishChange => exact (h.publishChange hlossless).guarded

theorem InSync.onConnect (h : InSync env before (outlook w))
    (hlossless : ∀ u, goFast w = .ok true u → RateLossless env u) :
    InSync env before (outlook (left (onConnect env) w)) := by
  refine left_bind (I := fun u => InSync env before (outlook u)) ?_ ?_
  · rw [outlook_rateKeeps.goFast.left_eq w]
    exact h
  · intro faster t hfast ht
    cases faster with
    | false => exact ht
    | true => exact ht.republishRate (hlossless t hfast)

theorem InSync.setAdvertisingInterval (h : InSync env before (outlook w)) {ms : ℤ}
    (hlossless : Lossless env w (.setAdvertisingInterval ms)) :
    InSync env before (outlook (left (setAdvertisingInterval env ms) w)) := by
  unfold Firmware.setAdvertisingInterval
  cases hcheck : checkInterval "interval" ms with
  | error x => exact h
  | ok v =>
      obtain rfl := checkInterval_ok hcheck
      have hretimed : InSync env before (outlook (retimed env v w)) := by
        unfold retimed
        dsimp only
        rw [outlook_scheduleKeeps.schedule.left_eq, outlook_setOrdered]
        · exact h
        · simp only [List.map_map]
          refine List.map_congr_left fun it _ => ?_
          simp only [Function.comp_apply, inheritInterval]
          split <;> rfl
      dsimp only
      rw [left_bind_of_ok (update_apply _ w), left_bind_of_ok (update_apply _ _)]
      refine left_bind (I := fun u => InSync env before (outlook u)) hretimed ?_
      intro _ t hscheduled ht
      have hlast : IntervalLossless env t := by
        rw [← left_ok hscheduled]
        exact hlossless ⟨v, hcheck⟩
      rw [left_bind_of_ok (look_apply id t)]
      refine left_bind (I := fun u => InSync env before (outlook u)) ?_ fun _ _ _ hu => hu
      by_cases hfollows : t.st.fastTimer = none ∧ t.st.advInterval ≠ t.st.interval
      · simp only [id_eq, doIf, if_pos hfollows]
        rw [left_bind_of_ok (update_apply _ t)]
        exact InSync.republishRate ht (hlast hfollows)
      · simp only [id_eq, doIf, if_neg hfollows]
        exact ht

/-! ## Writes -/

/-- A `tick` that found nothing moved. -/
theorem tick_rested {v : World} (h : tick env w = .ok false v) :
    ∃ u, readSensors env w = .ok false u ∧ v = rested env u := by
  obtain ⟨moved, u, hread, h⟩ := bind_ok.mp h
  cases moved with
  | true =>
      obtain ⟨_, _, -, h⟩ := bind_ok.mp h
      obtain ⟨_, _, -, h⟩ := bind_ok.mp h
      cases h
  | false =>
      obtain ⟨_, _, ⟨⟩, h⟩ := bind_ok.mp h
      obtain ⟨_, t, hscheduled, h⟩ := bind_ok.mp h
      refine ⟨u, hread, ?_⟩
      unfold rested
      rw [left_ok hscheduled]
      exact (EStateM.Result.ok.inj h).2.symm

theorem InSync.reaction (h : InSync env before (outlook w)) (hlossless : ReactionLossless env w) :
    InSync env before (outlook (left (reaction env) w)) := by
  refine left_bind (I := fun u => InSync env before (outlook u)) ?_ ?_
  · rw [outlook_rateKeeps.goFast.left_eq w]
    exact h
  intro faster u hfast hu
  have htick : TickLossless env u := left_ok hfast ▸ hlossless.1
  refine left_bind (I := fun u => InSync env before (outlook u)) (hu.tick htick) ?_
  intro moved v hmoved hv
  cases moved with
  | true => exact hv
  | false =>
      cases faster with
      | false => exact hv
      | true =>
          obtain ⟨t, hread, rfl⟩ := tick_rested hmoved
          exact hv.republishRate (hlossless.2 u t hfast hread)

theorem InSync.onWrite {k : ℕ} {data : Bytes} (h : InSync env before (outlook w))
    (hlossless : Lossless env w (.write k data)) :
    InSync env before (outlook (left (onWrite env k data) w)) := by
  rcases onWrite_cases env k data w with ⟨u, htakes, hkept, hleft⟩ | ⟨-, hkept⟩
  · rw [hleft]
    refine InSync.guarded (InSync.reaction ?_ (hlossless u htakes))
    rw [hkept outlook outlook_writeKeeps]
    exact h
  · rw [hkept outlook outlook_writeKeeps]
    exact h

/-! ## Events -/

theorem InSync.react (h : InSync env before (outlook w)) {event : Event}
    (hlossless : Lossless env w event) : InSync env before (outlook (react env w event)) := by
  have hkept : ∀ {u : World}, outlook u = outlook w → InSync env before (outlook u) := by
    intro u hu
    rw [hu]
    exact h
  cases event with
  | update => exact h.updateNow hlossless
  | changed => exact hkept ((keeps_changed fun _ => rfl).left_eq w)
  | setAdvertisingInterval ms => exact h.setAdvertisingInterval hlossless
  | setFastTimeout ms => exact hkept ((keeps_setFastTimeout (fun _ _ => rfl) ms).left_eq w)
  | write k data => exact h.onWrite hlossless
  | challenge data =>
      simp only [Firmware.react]
      split
      · exact hkept ((outlook_writeKeeps.onChallenge data).left_eq w)
      · exact h
  | connect =>
      simp only [Firmware.react]
      split
      · rename_i hlistening
        exact InSync.guarded (h.onConnect fun u hfast => hlossless u hlistening hfast)
      · exact h
  | disconnect =>
      simp only [Firmware.react]
      split
      · exact hkept ((keeps_guarded outlook_sealKeeps.asked
          (outlook_rateKeeps.goIdleAfterTimeout fun _ => rfl)).left_eq w)
      · exact h
  | fire handle =>
      simp only [Firmware.react, fire]
      split
      · exact h
      · rename_i t ht
        exact InSync.runJob (w := w.clearTimeout handle) h (hlossless t ht)
  | turn => exact hkept (outlook_serveKeeps.runAll (fun _ _ => rfl) _ _)

/-! ## `setup()` -/

theorem whole_planPacket {enc : Entry → Probe → Except JsError Obj} {read : ℕ → Except JsError Obj}
    {entries : List Entry} {defRead : Option ℕ} {encrypted : Bool} {limit : Option ℤ} {st : St}
    (h : planPacket enc read entries defRead encrypted limit = .ok st.plan) :
    (picture st).Whole := by
  obtain ⟨sensors, writable, decl, n, -, hplan⟩ := planPacket_ok h
  rw [renderServiceData_eq] at hplan
  unfold picture
  rw [hplan]
  constructor
  · simp only [renderedPlan, renderReads, List.length_map]
    exact (StableSort.isStableSort_sort _).perm
  · simp only [renderedPlan, draft, Option.isSome_map]
    cases writable.any (·.readable) <;> rfl

theorem Sound.install {opts : SetupOpts} {u : World} (h : Sound env before (outlook w))
    (hrun : install env opts w = .ok () u) : InSync env before (outlook u) := by
  unfold Firmware.install at hrun
  rw [look_bind] at hrun
  obtain ⟨_, t, hsaved, hrun⟩ := bind_ok.mp hrun
  obtain ⟨_, v, hserved, hrun⟩ := bind_ok.mp hrun
  obtain ⟨r, hrefreshed, hlast⟩ := always_ok hrun
  have ht : outlook t = outlook w := (Frame.doIf outlook_sealKeeps.saveMarks).ok hsaved
  have hv : outlook v = outlook t := by
    refine (Frame.doIf (R := Keeps outlook) ?_).ok hserved
    refine Frame.bind (outlook_sealKeeps.readValues _) fun values => ?_
    refine Frame.bind (keeps_ask outlook_sealKeeps.asked _) fun _ => Frame.update ?_
    exact outlook_serveKeeps.register (fun _ _ => rfl) values _
  have hr : InSync env before (outlook r) := by
    refine Sound.refreshed ?_ hrefreshed
    rw [hv, ht]
    exact h
  have hu : outlook u = outlook r := by
    refine (Frame.bind (R := Keeps outlook) outlook_scheduleKeeps.schedule
      fun _ => Frame.update ?_).ok hlast
    exact fun _ => rfl
  rw [hu]
  exact hr

theorem setup_ok {opts : SetupOpts} {b b' : Board} (h : setup env opts b = .ok () b') :
    ∃ next u, buildNext env opts b.nextObject b.toOutside = .ok next ∧
      install env opts (b.swap next) = .ok () u ∧ b' = u.board := by
  unfold setup at h
  cases hnext : buildNext env opts b.nextObject b.toOutside with
  | error e =>
      rw [hnext] at h
      cases h
  | ok next =>
      rw [hnext] at h
      cases hrun : install env opts (b.swap next) with
      | error e u =>
          simp only [hrun] at h
          cases h
      | ok _ u =>
          simp only [hrun] at h
          exact ⟨next, u, rfl, hrun, (EStateM.Result.ok.inj h).2.symm⟩

/-- A `setup()` that returns leaves the air up to date. -/
theorem inSync_setup {opts : SetupOpts} {b b' : Board} {st : St}
    (h : setup env opts b = .ok () b') (hst : b'.st = some st) :
    InSync env b'.returned (outlook (b'.world st)) := by
  obtain ⟨next, u, hnext, hrun, rfl⟩ := setup_ok h
  obtain rfl : u.st = st := Option.some.inj hst
  have hsound : Sound env (b.swap next).returned (outlook (b.swap next)) :=
    { whole := whole_planPacket (built_of_buildNext hnext).plan
      noted := ⟨[], by simp [outlook], by simp⟩ }
  exact
    { hsound.install hrun with
      noted := ⟨[], by simp [outlook, World.board, Board.world], by simp⟩ }

/-- In a run after `setup()` whose events lose nothing, every `tick`, `update` and `publishChange`
that returns leaves the radio with a packet that carries what the plan holds. -/
theorem returns_match_air (env : Env) (opts : SetupOpts) (b b' : Board) (st : St)
    (events : List Event) (hsetup : setup env opts b = .ok () b') (hst : b'.st = some st)
    (hlossless : Runs.Along (react env) (Lossless env) (b'.world st) events) :
    ∀ s ∈ (Runs.run (react env) (b'.world st) events).returned.drop b'.returned.length,
      Matches env s := by
  have hstep : ∀ (w : World) (event : Event), InSync env b'.returned (outlook w) →
      Lossless env w event → InSync env b'.returned (outlook (react env w event)) :=
    fun _ _ h hevent => h.react hevent
  have hrun := Runs.run_invariant hstep (inSync_setup hsetup hst) hlossless
  obtain ⟨later, hreturned, hlater⟩ := hrun.noted
  rw [show (Runs.run (react env) (b'.world st) events).returned = _ from hreturned,
    List.drop_left]
  exact hlater

set_option maxRecDepth 4000 in
/-- One `update()` of the device without a key. -/
theorem returns_match_air_sample :
    ∃ s, (Runs.run (react sampleEnv) (plainBoard.world plainSt) [.update]).returned = [s] ∧
      Matches sampleEnv s := by
  have hone : (Runs.run (react sampleEnv) (plainBoard.world plainSt)
      [.update]).returned.length = 1 := by rfl
  obtain ⟨s, hs⟩ := List.length_eq_one_iff.mp hone
  refine ⟨s, hs, returns_match_air sampleEnv sampleOpts (Board.powerOn none) plainBoard plainSt
    [.update] rfl (Option.some_get _).symm ⟨Or.inl ⟨_, _, rfl, rfl⟩, trivial⟩ s ?_⟩
  rw [hs]
  exact List.mem_singleton_self s

/-- The radio refuses the packet of the first `update()`. -/
def refusingEnv : Env :=
  { sampleEnv with
    clock := fun n => 1000 * n
    throws := fun n call =>
      match n, call with
      | 11, .setAdvertising _ _ => some ⟨none, "INVALID ADDR"⟩
      | _, _ => none }

def refusingBoard : Board := left (setup refusingEnv sampleOpts) (Board.powerOn none)

def refusingSt : St := refusingBoard.st.get (by decide)

/-- An `update()` that is refused, and the wake after it. -/
def refusedRun : World :=
  Runs.run (react refusingEnv) (refusingBoard.world refusingSt) [.update, .fire 1]

set_option maxRecDepth 4000 in
/-- The wake reads the same value as before, returns, and leaves the fallback on the air, which
has neither the battery nor the declaration. -/
theorem fallback_stays_on_air :
    setup refusingEnv sampleOpts (Board.powerOn none) = .ok () refusingBoard ∧
      refusingBoard.st = some refusingSt ∧
      refusedRun.returned.map (·.air) = [some [0x40, 0x00, 0x02]] ∧
      ¬ ∀ s ∈ refusedRun.returned.drop refusingBoard.returned.length, Matches refusingEnv s := by
  refine ⟨rfl, (Option.some_get _).symm, rfl, ?_⟩
  intro hall
  have hseen : refusedRun.returned.map (fun s => (s.air, s.st.key, s.st.plan.decl)) =
      [(some [0x40, 0x00, 0x02], none, some [0xFF, 0x01, 0x0F])] := rfl
  obtain ⟨s, hs, hlook⟩ := List.map_eq_singleton_iff.mp hseen
  simp only [Prod.mk.injEq] at hlook
  obtain ⟨hair, hkey, hdecl⟩ := hlook
  have hmatch : Matches refusingEnv s := by
    refine hall s ?_
    rw [hs]
    exact List.mem_singleton_self s
  obtain ⟨frame, sd, hframe, hframed, pid, objs, hsd, -⟩ := hmatch
  rw [hair] at hframe
  rw [hkey] at hframed
  rw [hdecl] at hsd
  have hlength := congrArg List.length hsd
  rw [← show frame = sd from hframed, ← Option.some.inj hframe] at hlength
  simp at hlength

end BTHomeWritable.Firmware
