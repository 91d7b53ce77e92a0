import BTHomeWritable.Device.PlanInv
import BTHomeWritable.Firmware.Frames
import Mathlib.Data.List.Nodup

/-!
# The plan of a running device

A plan is made by `planPacket` and lives as long as its `st`: events move the
readings, the packet id and the revision in it and nothing else.  What holds of
a plan as `planPacket` makes it, and survives this, holds in every state a
device can reach.

* `planPacket_ok` takes a plan that was made apart.  From it come that its
  writable entries are `Numbered` by their characteristics and that each is
  `Specified` by the entry it is for.
* `writable_eventKeeps` says that no event touches the writable entries.
* `buildNext_ok` takes a new state apart: it is `Built` from the options and
  `Resumed` from the address and from the marks on flash.
* `left_setup_of_error` and `left_setup_of_ok` are what a `setup()` leaves.

`holds_run` is the induction over a device's life, for anything that every
`setup()` establishes and every other event preserves; `numbered_run`,
`specified_run` and `accessible_run` are its first uses.
-/

namespace BTHomeWritable.Firmware

open Device Throwing

variable {enc : Entry → Probe → Except JsError Obj} {read : ℕ → Except JsError Obj}
  {entries : List Entry} {defRead : Option ℕ} {encrypted : Bool} {limit : Option ℤ} {p : Plan}

/-! ## Plans as they are made -/

theorem planPacket_ok (h : planPacket enc read entries defRead encrypted limit = .ok p) :
    ∃ sensors writable decl n,
      planEntries enc read (defRead.getD 0) entries 0 [] [] = .ok (sensors, writable) ∧
      p = { (renderServiceData (draft encrypted limit sensors writable decl)
        ⟨0, none, 0, some 0⟩).1 with serviceDataLength := n } := by
  unfold planPacket at h
  cases hentries : planEntries enc read (defRead.getD 0) entries 0 [] [] with
  | error x =>
      rw [hentries] at h
      cases h
  | ok found =>
      obtain ⟨sensors, writable⟩ := found
      rw [hentries] at h
      simp only at h
      cases hdecl : (if writable.isEmpty then .ok none
          else (encodeDeclaration (writable.map (·.spec.id))).map some :
          Except JsError (Option Bytes)) with
      | error x =>
          rw [hdecl] at h
          cases h
      | ok decl =>
          rw [hdecl] at h
          simp only at h
          split at h
          · cases h
          · rename_i q sd hdrafted
            have hrun : renderServiceData (draft encrypted limit sensors writable decl)
                ⟨0, none, 0, some 0⟩ = (q, .ok sd) := hdrafted
            refine ⟨sensors, writable, decl, sd.length, rfl, ?_⟩
            rw [hrun]
            exact (Except.ok.inj h).symm

/-- Entry `i` of the plan has number `i + 1`. -/
def Numbered (writable : List Writable) : Prop :=
  ∀ i w, writable[i]? = some w → w.entry = i + 1

theorem Numbered.getElem? {writable : List Writable} (h : Numbered writable) {w : Writable}
    (hw : w ∈ writable) : writable[w.entry - 1]? = some w := by
  obtain ⟨i, hi⟩ := List.mem_iff_getElem?.mp hw
  rw [h i w hi]
  exact hi

theorem Numbered.nodup {writable : List Writable} (h : Numbered writable) :
    (writable.map (·.entry)).Nodup := by
  have hentries : writable.map (·.entry) = (List.range writable.length).map (· + 1) := by
    refine List.ext_getElem (by simp) fun i hi _ => ?_
    rw [List.length_map] at hi
    simpa using h i writable[i] (List.getElem?_eq_getElem hi)
  rw [hentries]
  exact List.Nodup.map (add_left_injective 1) List.nodup_range

theorem planEntries_numbered {every : ℕ} {rest : List Entry} {i : ℕ}
    {sensors sensors' : List Sensor} {writable writable' : List Writable}
    (h : Numbered writable)
    (hrun : planEntries enc read every rest i sensors writable = .ok (sensors', writable')) :
    Numbered writable' := by
  induction rest generalizing i sensors writable with
  | nil =>
      obtain ⟨-, rfl⟩ := Prod.mk.inj (Except.ok.inj hrun)
      exact h
  | cons e rest ih =>
      unfold planEntries at hrun
      split at hrun
      · cases hrun
      split at hrun
      · split at hrun
        · cases hrun
        · rename_i spec _
          refine ih ?_ hrun
          intro j w hw
          rcases Nat.lt_or_ge j writable.length with hlt | hge
          · rw [List.getElem?_append_left hlt] at hw
            exact h j w hw
          · rw [List.getElem?_append_right hge, List.getElem?_eq_some_iff] at hw
            obtain ⟨hlast, rfl⟩ := hw
            simp only [List.length_singleton] at hlast
            simp only [List.getElem_singleton]
            omega
      · split at hrun
        · cases hrun
        · exact ih h hrun

theorem numbered_planPacket (h : planPacket enc read entries defRead encrypted limit = .ok p) :
    Numbered p.writable := by
  obtain ⟨sensors, writable, decl, n, hentries, rfl⟩ := planPacket_ok h
  exact planEntries_numbered (fun _ _ h => by simp at h) hentries

/-- The entry of `writable` is there, and has a `get()` if `writable` is readable. -/
def Accessible (entries : List Entry) (writable : Writable) : Prop :=
  ∃ e, entries[writable.entryIndex]? = some e ∧ writable.readable = e.hasGet

theorem accessible_of_specified {writable : Writable} (h : Specified enc entries writable) :
    Accessible entries writable := by
  obtain ⟨e, hentry, -, hreadable⟩ := h
  exact ⟨e, hentry, hreadable⟩

theorem planEntries_specified {every : ℕ} {rest : List Entry} {i : ℕ}
    {sensors sensors' : List Sensor} {writable writable' : List Writable}
    (hrest : entries.drop i = rest) (h : ∀ w ∈ writable, Specified enc entries w)
    (hrun : planEntries enc read every rest i sensors writable = .ok (sensors', writable')) :
    ∀ w ∈ writable', Specified enc entries w := by
  induction rest generalizing i sensors writable with
  | nil =>
      obtain ⟨-, rfl⟩ := Prod.mk.inj (Except.ok.inj hrun)
      exact h
  | cons e rest ih =>
      have hentry : entries[i]? = some e := by
        rw [← Nat.add_zero i, ← List.getElem?_drop, hrest]
        rfl
      have hnext : entries.drop (i + 1) = rest := by
        rw [← List.drop_drop, hrest]
        rfl
      unfold planEntries at hrun
      split at hrun
      · cases hrun
      split at hrun
      · cases hspec : writableSpec enc e (writable.length + 1) with
        | error x =>
            rw [hspec] at hrun
            cases hrun
        | ok spec =>
            rw [hspec] at hrun
            refine ih hnext ?_ hrun
            intro w hw
            rcases List.mem_append.mp hw with hw | hw
            · exact h w hw
            · obtain rfl := List.mem_singleton.mp hw
              exact ⟨e, hentry, hspec, rfl⟩
      · split at hrun
        · cases hrun
        · exact ih hnext h hrun

theorem specified_planPacket (h : planPacket enc read entries defRead encrypted limit = .ok p) :
    ∀ w ∈ p.writable, Specified enc entries w := by
  obtain ⟨sensors, writable, decl, n, hentries, rfl⟩ := planPacket_ok h
  exact planEntries_specified List.drop_zero (by simp) hentries

/-! ## Plans as they live -/

/-- A read pass keeps what reading an entry keeps. -/
theorem map_readDue {β : Type} {g : Sensor → β}
    (hg : ∀ (read : ℕ → Except JsError Obj) (now : ℤ) (it : Sensor),
      g (readSensor read now it).1 = g it)
    (read : ℕ → Except JsError Obj) (now : ℤ) (sensors : List Sensor) :
    (readDue read now sensors).1.map g = sensors.map g := by
  induction sensors with
  | nil => rfl
  | cons it rest ih =>
      unfold readDue
      split
      · simpa using ih
      · have hone := hg read now it
        cases hread : readSensor read now it with
        | mk it' result =>
            rw [hread] at hone
            cases result with
            | error x => simpa using hone
            | ok moved => simpa using ⟨hone, ih⟩

/-- The read pass of a render, if it has one. -/
def renderReads (r : Render) (sensors : List Sensor) : List Sensor × Except JsError Bool :=
  match r.source with
  | none => (sensors, .ok false)
  | some read => readDue read r.now sensors

/-- The plan a render leaves. -/
def renderedPlan (p : Plan) (r : Render) : Plan :=
  { p with
    pkt := lowByte r.pid
    rev := p.rev.map fun _ => lowByte (r.revision.getD 0)
    ordered := (renderReads r p.ordered).1 }

/-- The service data a plan builds. -/
def buildPlan (p : Plan) : Except JsError Bytes :=
  buildServiceData p.info (p.objs.map p.object) p.decl p.budget

theorem renderServiceData_eq (p : Plan) (r : Render) :
    renderServiceData p r =
      (renderedPlan p r,
        (renderReads r p.ordered).2.bind fun _ => buildPlan (renderedPlan p r)) := by
  unfold renderServiceData renderedPlan renderReads
  cases r.source with
  | none => rfl
  | some read =>
      simp only
      cases readDue read r.now p.ordered with
      | mk ordered result => cases result <;> rfl

theorem writable_eventKeeps : EventKeeps fun w : World => w.st.plan.writable where
  render w r := by
    rw [renderServiceData_eq]
    rfl

theorem writable_installKeeps : InstallKeeps fun w : World => w.st.plan.writable :=
  { writable_eventKeeps with }

variable {env : Env} {opts : SetupOpts}

/-- What a new state is made of, as far as it is of use later. -/
structure Built (env : Env) (opts : SetupOpts) (object : ℕ) (o : Outside) (next : St) : Prop where
  object : next.object = object
  entries : next.entries = opts.advertise
  plan : planPacket env.encoder (env.reading (o.calls + 1)) opts.advertise
    (some (orElse opts.interval 2000).toNat) next.key.isSome opts.maxServiceData = .ok next.plan
  bound : 20 ≤ next.interval
  interval : next.interval = orElse opts.interval 2000
  fastInterval : next.fastInterval = max 100 (orElse opts.fastInterval 100)
  fastTimeout : next.fastTimeout = opts.fastTimeout.getD 30000
  idle : next.advInterval = next.interval
  timer : next.timer = none
  fastTimer : next.fastTimer = none
  changeTimer : next.changeTimer = none
  revision : next.revision < 256
  packetId : next.packetId = 0
  lastSd : next.lastSd = none

/-- What a new state takes from the address and from the marks on flash. -/
structure Resumed (env : Env) (marks : Marks) (next : St) : Prop where
  mac : next.mac = if next.key.isSome then macBytes env.address else []
  advCounter : next.advCounter = marks.a
  advMark : next.advMark = toUint32 ((marks.a : ℤ) + ADV_STRIDE)
  writeCounter : next.writeCounter = marks.w
  writeMark : next.writeMark = marks.w

/-- A device with a key resumes from the file. -/
theorem marks_of_resumedMarks {key : Option Bytes} {o : Outside} {marks : Marks}
    (h : resumedMarks env key o = .ok marks) (hkey : key.isSome = true) :
    marks = loadMarks o.file := by
  unfold resumedMarks at h
  rw [if_pos hkey] at h
  cases hread : env.throws o.calls .readMarks with
  | some f =>
      rw [hread] at h
      cases h
  | none =>
      rw [hread] at h
      exact (Except.ok.inj h).symm

theorem checkInterval_ok {option : String} {v v' : ℤ} (h : checkInterval option v = .ok v') :
    v' = v := by
  unfold checkInterval at h
  split at h
  · cases h
  · exact (Except.ok.inj h).symm

theorem checkInterval_bounds {option : String} {v v' : ℤ} (h : checkInterval option v = .ok v') :
    20 ≤ v ∧ v ≤ 10000 := by
  unfold checkInterval at h
  split at h
  · cases h
  · omega

theorem buildNext_ok {object : ℕ} {o : Outside} {next : St}
    (h : buildNext env opts object o = .ok next) :
    Built env opts object o next ∧ toKey opts.bindkey = .ok next.key ∧
      ∃ marks, resumedMarks env next.key o = .ok marks ∧ Resumed env marks next := by
  simp only [buildNext, bind, Except.bind] at h
  -- statement by statement, as each of them may have thrown
  cases hinterval : checkInterval "interval" (orElse opts.interval 2000) with
  | error x => simp [hinterval] at h
  | ok iv =>
  have hbounds := checkInterval_bounds hinterval
  obtain rfl := checkInterval_ok hinterval
  cases hkey : toKey opts.bindkey with
  | error x => simp [hinterval, hkey] at h
  | ok key =>
  cases hmarks : resumedMarks env key o with
  | error x => simp [hinterval, hkey, hmarks] at h
  | ok marks =>
  cases hplan : planPacket env.encoder (env.reading (o.calls + 1)) opts.advertise
      (some (orElse opts.interval 2000).toNat) key.isSome opts.maxServiceData with
  | error x => simp [hinterval, hkey, hmarks, hplan] at h
  | ok plan =>
  cases hfast : checkInterval "fastInterval" (orElse opts.fastInterval 100) with
  | error x => simp [hinterval, hkey, hmarks, hplan, hfast] at h
  | ok fast =>
  simp only [hinterval, hkey, hmarks, hplan, hfast, pure, Except.pure] at h
  obtain rfl := Except.ok.inj h
  refine ⟨?_, rfl, marks, hmarks, rfl, rfl, rfl, rfl, rfl⟩
  exact
    { object := rfl
      entries := rfl
      plan := hplan
      bound := hbounds.1
      interval := rfl
      fastInterval := congrArg (max 100) (checkInterval_ok hfast)
      fastTimeout := rfl
      idle := rfl
      timer := rfl
      fastTimer := rfl
      changeTimer := rfl
      revision := Nat.mod_lt _ (by norm_num)
      packetId := rfl
      lastSd := rfl }

theorem built_of_buildNext {object : ℕ} {o : Outside} {next : St}
    (h : buildNext env opts object o = .ok next) : Built env opts object o next :=
  (buildNext_ok h).1

/-! ## Every state of a device -/

variable {Q : World → Prop}

/-- `Q` holds of a device that has been set up. -/
def Holds (Q : World → Prop) (b : Board) : Prop := ∀ st, b.st = some st → Q (b.world st)

theorem left_setup_of_error {b : Board} {e : JsError}
    (h : buildNext env opts b.nextObject b.toOutside = .error e) :
    left (setup env opts) b = { b with calls := b.calls + 3 } := by
  simp only [left, setup, h]

theorem left_setup_of_ok {b : Board} {next : St}
    (h : buildNext env opts b.nextObject b.toOutside = .ok next) :
    left (setup env opts) b = (left (install env opts) (b.swap next)).board := by
  simp only [left, setup, h]
  cases install env opts (b.swap next) <;> rfl

theorem file_swap (b : Board) (next : St) : (b.swap next).file = b.file := by
  unfold Board.swap
  cases b.st <;> rfl

theorem handed_swap (b : Board) (next : St) : (b.swap next).handed = b.handed := by
  unfold Board.swap
  cases b.st <;> rfl

theorem holds_setup {b : Board}
    (hcalls : ∀ (w : World) (n : ℕ), Q w → Q { w with calls := n })
    (hbuilt : ∀ next, buildNext env opts b.nextObject b.toOutside = .ok next →
      Q (left (install env opts) (b.swap next)))
    (h : Holds Q b) : Holds Q (left (setup env opts) b) := by
  cases hnext : buildNext env opts b.nextObject b.toOutside with
  | error e =>
      rw [left_setup_of_error hnext]
      exact fun st hst => hcalls (b.world st) (b.calls + 3) (h st hst)
  | ok next =>
      rw [left_setup_of_ok hnext]
      rintro st ⟨⟩
      exact hbuilt next hnext

theorem run_on {b : Board} {st : St} (hst : b.st = some st) (events : List Event) :
    Runs.run (Board.step env) b (events.map .on) =
      (Runs.run (react env) (b.world st) events).board := by
  induction events generalizing b st with
  | nil =>
      show b = (b.world st).board
      simp only [World.board, Board.world, ← hst]
  | cons event rest ih =>
      have hstep : Board.step env b (.on event) = (react env (b.world st) event).board := by
        simp only [Board.step, hst]
      rw [List.map_cons, Runs.run_cons, hstep, Runs.run_cons]
      exact ih rfl

/-- What every `setup()` establishes and every other event preserves holds in every state a
device reaches. -/
theorem holds_run (hcalls : ∀ (w : World) (n : ℕ), Q w → Q { w with calls := n })
    (hbuilt : ∀ (opts : SetupOpts) (b : Board) (next : St),
      buildNext env opts b.nextObject b.toOutside = .ok next →
      Q (left (install env opts) (b.swap next)))
    (hreact : ∀ w event, Q w → Q (react env w event)) (file : Option MarksFile)
    (events : List BoardEvent) :
    Holds Q (Runs.run (Board.step env) (Board.powerOn file) events) := by
  have hstep : ∀ (b : Board) (event : BoardEvent), Holds Q b → True →
      Holds Q (Board.step env b event) := by
    intro b event h _
    cases event with
    | setup opts => exact holds_setup hcalls (hbuilt opts b) h
    | on event =>
        unfold Board.step
        cases hst : b.st with
        | none =>
            intro st hst'
            rw [hst] at hst'
            cases hst'
        | some st =>
            rintro st' ⟨⟩
            exact hreact (b.world st) event (h st hst)
  refine Runs.run_invariant hstep ?_ (Runs.Along.of_forall fun _ _ => trivial)
  intro st hst
  cases hst

/-- In every state a device reaches, the entries of the plan carry their numbers. -/
theorem numbered_run (env : Env) (file : Option MarksFile) (events : List BoardEvent) :
    Holds (fun w => Numbered w.st.plan.writable)
      (Runs.run (Board.step env) (Board.powerOn file) events) := by
  refine holds_run (fun _ _ h => h) ?_ ?_ file events
  · intro opts b next hnext
    have hkept : (left (install env opts) (b.swap next)).st.plan.writable = next.plan.writable :=
      ((writable_installKeeps).install opts).left_eq (b.swap next)
    rw [hkept]
    exact numbered_planPacket (built_of_buildNext hnext).plan
  · intro w event h
    rw [(writable_eventKeeps).react]
    exact h

theorem specified_run (env : Env) (file : Option MarksFile) (events : List BoardEvent) :
    Holds (fun w => ∀ writable ∈ w.st.plan.writable, Specified env.encoder w.st.entries writable)
      (Runs.run (Board.step env) (Board.powerOn file) events) := by
  have hkeeps : EventKeeps fun w : World => (w.st.entries, w.st.plan.writable) :=
    { render := fun w r => Prod.ext rfl ((writable_eventKeeps).render w r) }
  have hinstall : InstallKeeps fun w : World => (w.st.entries, w.st.plan.writable) :=
    { hkeeps with }
  refine holds_run (fun _ _ h => h) ?_ ?_ file events
  · intro opts b next hnext
    have hbuilt := built_of_buildNext hnext
    have hframe : Frame (Keeps _) (install env opts) := hinstall.install opts
    have hkept := Prod.mk.inj (hframe.left_eq (b.swap next))
    rw [hkept.1, hkept.2]
    show ∀ writable ∈ next.plan.writable, Specified env.encoder next.entries writable
    rw [hbuilt.entries]
    exact specified_planPacket hbuilt.plan
  · intro w event h
    have hkept : ((react env w event).st.entries, (react env w event).st.plan.writable) =
        (w.st.entries, w.st.plan.writable) := hkeeps.react w event
    rw [(Prod.mk.inj hkept).1, (Prod.mk.inj hkept).2]
    exact h

theorem accessible_run (env : Env) (file : Option MarksFile) (events : List BoardEvent) :
    Holds (fun w => ∀ writable ∈ w.st.plan.writable, Accessible w.st.entries writable)
      (Runs.run (Board.step env) (Board.powerOn file) events) :=
  fun st hst writable hmem => accessible_of_specified (specified_run env file events st hst
    writable hmem)

end BTHomeWritable.Firmware
