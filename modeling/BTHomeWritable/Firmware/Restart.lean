import BTHomeWritable.Firmware.Plans

/-!
# A `setup()` that fails

`setup` lets the old state go once `next` stands.  What throws before that
leaves the device running as it was; what throws after it, from claiming the
counters to the first packet, does not: `st` is the new object by then, and the
timers of the old one are cleared.  The one exception the module makes is a
first packet that the radio refuses.

`BuildRefused` lists what can throw before the swap, on the options and the calls
that are made by then, and `buildNext_error_iff` says that the list is complete.
`setup_of_built` is the other side: from the swap on, `st` is another object.
Together they give `failed_setup_keeps_running_iff`: a failed `setup()` leaves the
old state in place with what it had armed (`StillRunning`) exactly if it was
`next` that could not be built.  `failed_setup_stops_device` is a `get()` that
throws after the swap.
-/

namespace BTHomeWritable.Firmware

open Device Throwing

variable {env : Env} {opts : SetupOpts}

/-! ## Building the new state -/

def OutOfRange (v : ℤ) : Prop := v < 20 ∨ 10000 < v

/-- One of the things `next` is made of is refused, or throws. -/
def BuildRefused (env : Env) (opts : SetupOpts) (o : Outside) : Prop :=
  OutOfRange (orElse opts.interval 2000) ∨
  (∃ x, toKey opts.bindkey = .error x) ∨
  (opts.bindkey.isSome ∧ (env.throws o.calls .readMarks).isSome) ∨
  (∃ x, planPacket env.encoder (env.reading (o.calls + 1)) opts.advertise
    (some (orElse opts.interval 2000).toNat) opts.bindkey.isSome opts.maxServiceData = .error x) ∨
  OutOfRange (orElse opts.fastInterval 100)

theorem checkInterval_of_outOfRange (option : String) {v : ℤ} (h : OutOfRange v) :
    ∃ x, checkInterval option v = .error x := ⟨_, if_pos h⟩

theorem checkInterval_of_not_outOfRange {option : String} {v : ℤ} (h : ¬ OutOfRange v) :
    checkInterval option v = .ok v := if_neg h

theorem isSome_of_toKey {key : Option Bindkey} {bytes : Option Bytes}
    (h : toKey key = .ok bytes) : bytes.isSome = key.isSome := by
  unfold toKey at h
  split at h
  · obtain rfl := Except.ok.inj h
    rfl
  · split at h
    · cases h
    · obtain rfl := Except.ok.inj h
      rfl
  · split at h
    · cases h
    · split at h
      · cases h
      · obtain rfl := Except.ok.inj h
        rfl

variable (env) in
theorem resumedMarks_error_iff (key : Option Bytes) (o : Outside) :
    (∃ x, resumedMarks env key o = .error x) ↔
      key.isSome ∧ (env.throws o.calls .readMarks).isSome := by
  unfold resumedMarks
  cases key with
  | none => simp
  | some key => cases env.throws o.calls .readMarks <;> simp

theorem buildNext_error_iff (object : ℕ) {o : Outside} :
    (∃ e, buildNext env opts object o = .error e) ↔ BuildRefused env opts o := by
  unfold buildNext BuildRefused
  by_cases hinterval : OutOfRange (orElse opts.interval 2000)
  · obtain ⟨x, hx⟩ := checkInterval_of_outOfRange "interval" hinterval
    simp [hx, hinterval, bind, Except.bind]
  rw [checkInterval_of_not_outOfRange hinterval]
  cases hkey : toKey opts.bindkey with
  | error x => simp [bind, Except.bind]
  | ok key =>
      have hsome := isSome_of_toKey hkey
      have hmarked : _ ↔ _ := resumedMarks_error_iff env key o
      rw [hsome] at hmarked
      rw [← hmarked, ← hsome]
      cases hmarks : resumedMarks env key o with
      | error x => simp [hmarks, bind, Except.bind]
      | ok marks =>
          cases hplan : planPacket env.encoder (env.reading (o.calls + 1)) opts.advertise
              (some (orElse opts.interval 2000).toNat) key.isSome opts.maxServiceData with
          | error x => simp [hmarks, hplan, bind, Except.bind]
          | ok plan =>
              by_cases hfast : OutOfRange (orElse opts.fastInterval 100)
              · obtain ⟨x, hx⟩ := checkInterval_of_outOfRange "fastInterval" hfast
                simp [hmarks, hplan, hx, hfast, bind, Except.bind]
              · rw [checkInterval_of_not_outOfRange hfast]
                simp [hmarks, hplan, hinterval, hfast, bind, Except.bind, pure, Except.pure]

/-! ## After the swap -/

theorem object_installKeeps : InstallKeeps fun w : World => w.st.object where

/-- From the swap on, `st` is another object. -/
theorem setup_of_built {b : Board} {next : St}
    (h : buildNext env opts b.nextObject b.toOutside = .ok next) :
    ∃ st', (left (setup env opts) b).st = some st' ∧ st'.object = next.object := by
  have hkept : Keeps _ (b.swap next) (left (install env opts) (b.swap next)) :=
    (object_installKeeps).install opts (b.swap next)
  rw [left_setup_of_ok h]
  exact ⟨_, rfl, hkept⟩

/-! ## What is left of the old one -/

/-- The state object `st` is in place, and what it has armed is armed as before. -/
structure StillRunning (st : St) (b b' : Board) : Prop where
  inPlace : b'.st = some st
  timers : ∀ t : Timer,
    some t.handle = st.timer ∨ some t.handle = st.fastTimer ∨ some t.handle = st.changeTimer →
      (t ∈ b'.timers ↔ t ∈ b.timers)

/-- A `setup()` that throws, whatever it throws, leaves the device running exactly when it was
`next` that could not be built. -/
theorem failed_setup_keeps_running_iff (env : Env) (opts : SetupOpts) (b b' : Board) (st : St)
    (e : JsError) (hst : b.st = some st) (hfailed : setup env opts b = .error e b') :
    StillRunning st b b' ↔ BuildRefused env opts b.toOutside := by
  rw [← buildNext_error_iff b.nextObject]
  cases hbuilt : buildNext env opts b.nextObject b.toOutside with
  | error x =>
      have hleft : b' = { b with calls := b.calls + 3 } := by
        simp only [setup, hbuilt] at hfailed
        cases hfailed
        rfl
      subst hleft
      exact ⟨fun _ => ⟨x, rfl⟩, fun _ => ⟨hst, fun _ _ => Iff.rfl⟩⟩
  | ok next =>
      obtain ⟨st', hst', hobject⟩ := setup_of_built hbuilt
      rw [left_error hfailed] at hst'
      have hnew : next.object = st.object + 1 := by
        rw [(built_of_buildNext hbuilt).object, Board.nextObject, hst]
        rfl
      constructor
      · intro h
        obtain rfl : st' = st := Option.some.inj (hst'.symm.trans h.inPlace)
        omega
      · rintro ⟨x, hx⟩
        cases hx

/-- The reading of call 12 throws, which is where a second `setup()` reads the light. -/
def failingEnv : Env :=
  { sampleEnv with
    read := fun n i => if n = 12 then .error ⟨none, "sensor not ready"⟩ else sampleEnv.read n i }

/-- A device after its first `setup()`. -/
def sampleBoard : Board := left (setup failingEnv sampleOpts) (Board.powerOn none)

/-- The same device after a second `setup()`, whose reading of the light throws. -/
def sampleFailed : Board := left (setup failingEnv sampleOpts) sampleBoard

set_option maxRecDepth 4000 in
/-- The reading is taken after the swap: the read timer is gone with the old state. -/
theorem failed_setup_stops_device :
    setup failingEnv sampleOpts (Board.powerOn none) = .ok () sampleBoard ∧
      setup failingEnv sampleOpts sampleBoard =
        .error ⟨none, "sensor not ready"⟩ sampleFailed ∧
      sampleBoard.timers = [⟨1, .wake, 1100⟩] ∧ sampleFailed.timers = [] ∧
      ∃ st, sampleBoard.st = some st ∧ ¬ StillRunning st sampleBoard sampleFailed := by
  refine ⟨rfl, rfl, by decide, by decide, ?_⟩
  have hset : (sampleBoard.st.map (·.object)) = some 0 := by decide
  obtain ⟨st, hst, hobject⟩ := Option.map_eq_some_iff.mp hset
  refine ⟨st, hst, ?_⟩
  intro h
  have hother : (sampleFailed.st.map (·.object)) = some 1 := by decide
  rw [h.inPlace, Option.map_some, hobject] at hother
  exact absurd hother (by decide)

set_option maxRecDepth 4000 in
/-- Asked for an interval of 5 ms, the same device goes on as it was. -/
theorem failed_setup_keeps_running_sample :
    ∃ st e b', sampleBoard.st = some st ∧
      setup failingEnv { sampleOpts with interval := some 5 } sampleBoard = .error e b' ∧
      StillRunning st sampleBoard b' := by
  obtain ⟨st, hst⟩ : ∃ st, sampleBoard.st = some st := Option.isSome_iff_exists.mp (by decide)
  have hfailed : setup failingEnv { sampleOpts with interval := some 5 } sampleBoard =
      .error (err .intervalOutOfRange "interval is 5ms; the radio accepts 20 to 10000")
        (left (setup failingEnv { sampleOpts with interval := some 5 }) sampleBoard) := rfl
  refine ⟨st, _, _, hst, hfailed, ?_⟩
  exact (failed_setup_keeps_running_iff _ _ _ _ st _ hst hfailed).mpr (Or.inl (by
    left
    decide))

end BTHomeWritable.Firmware
