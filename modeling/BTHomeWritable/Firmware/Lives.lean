import BTHomeWritable.Device.Nonces
import BTHomeWritable.Firmware.Restart
import BTHomeWritable.Lib.Scripted

/-!
# The counters of a running device

The functions that touch a counter are modelled twice: in `Device`, where power
can go before any statement and the counters are followed past their wrap, and
here, where the environment decides what throws and the rest of the module is
around them.  The two are one: whatever a device does that is always set up with
a key, its counters, its marks and the flash file are those of a `Device.Life`.

* `Mirrors` says that a world there has the counters of the world here.
* Function by function, the program there `Reenacts` the program here:
  `follows_saveMarks`, `follows_noteAdvCounter`, `follows_noteWriteCounter`,
  `follows_reject`, `follows_sealUnder`, `follows_openWrite`.  What throws there
  has thrown here (`Fated`), so a script of fates can be read off the run.
* `Lives` is what the events need of it: to get from one world here to another
  takes a list of events there.  It is a preorder that every program is a frame
  of, because sealing and opening are (`lives_sealUnder`, `lives_openWrite`) and
  nothing else touches the counters (`lives_eventMoves`).
* What `setup` claims before it publishes is one event of its own
  (`reaches_saveMarks`), and the rest of it is a frame again (`exists_setup`).

`exists_life` puts the run together.  With it a law of the lives is one of the
running device; `resumes_ahead` is the mark it would resume from.
-/

namespace BTHomeWritable.Firmware

open Device hiding World St Event SetupOpts setup sampleOpts saveMarks noteAdvCounter
  noteWriteCounter sealUnder openWrite reject typeError
open Throwing Scripted Statements

/-! ## The same counters -/

/-- What both models have of a device with a key. -/
structure SameCounters (st : St) (s : Device.St) : Prop where
  key : st.key = some s.key
  mac : st.mac = s.mac
  advCounter : st.advCounter = s.advCounter
  advMark : st.advMark = s.advMark
  writeCounter : st.writeCounter = s.writeCounter
  writeMark : st.writeMark = s.writeMark
  onError : st.onError = s.onError

structure Mirrors (file : Option MarksFile) (st : Option St) (d : Device.World) : Prop where
  file : d.file = file
  st : Option.Rel SameCounters st d.st

/-- The worlds of two running devices. -/
def Mirrored (w : World) (d : Device.World) : Prop := Mirrors w.file (some w.st) d

variable {env : Env} {w w' : World} {d : Device.World} {s : Device.St}

theorem Mirrored.intro (hfile : d.file = w.file) (hst : d.st = some s)
    (hsame : SameCounters w.st s) : Mirrored w d := by
  refine ⟨hfile, ?_⟩
  rw [hst]
  exact .some hsame

theorem Mirrors.same {file : Option MarksFile} {st : St} (h : Mirrors file (some st) d) :
    ∃ s, d.st = some s ∧ SameCounters st s := by
  obtain ⟨-, hst⟩ := h
  cases hd : d.st with
  | none =>
      rw [hd] at hst
      cases hst
  | some s =>
      rw [hd] at hst
      obtain ⟨hsame⟩ := hst
      exact ⟨s, rfl, hsame⟩

/-! ## Assignments -/

theorem Mirrored.bumpAdvCounter (h : Mirrored w d) :
    Mirrored w.bumpAdvCounter d.bumpAdvCounter := by
  obtain ⟨s, hst, hs⟩ := h.same
  refine .intro (s := { s with advCounter := toUint32 ((s.advCounter : ℤ) + 1) }) h.file ?_ ?_
  · rw [Device.World.bumpAdvCounter, hst, Option.map_some]
  · rw [← hs.advCounter]
    exact { hs with advCounter := rfl }

/-- For any mark: the kernel would count the stride down. -/
theorem SameCounters.withAdvMark {st : St} (h : SameCounters st s) (mark : ℕ) :
    SameCounters { st with advMark := mark } { s with advMark := mark } :=
  { h with advMark := rfl }

theorem Mirrored.setAdvMark (h : Mirrored w d) (counter : ℕ) :
    Mirrored (w.setAdvMark counter) (d.setAdvMark counter) := by
  obtain ⟨s, hst, hs⟩ := h.same
  refine .intro (s := { s with advMark := toUint32 ((counter : ℤ) + ADV_STRIDE) }) ?_ ?_ ?_
  · rw [World.setAdvMark, Device.World.setAdvMark]
    exact h.file
  · rw [Device.World.setAdvMark, hst, Option.map_some]
  · rw [World.setAdvMark]
    exact hs.withAdvMark _

theorem Mirrored.setWriteCounter (h : Mirrored w d) (counter : ℕ) :
    Mirrored (w.setWriteCounter counter) (d.setWriteCounter counter) := by
  obtain ⟨s, hst, hs⟩ := h.same
  refine .intro (s := { s with writeCounter := counter }) h.file ?_ ?_
  · rw [Device.World.setWriteCounter, hst, Option.map_some]
  · exact { hs with writeCounter := rfl }

theorem Mirrored.setWriteMark (h : Mirrored w d) (counter : ℕ) :
    Mirrored (w.setWriteMark counter) (d.setWriteMark counter) := by
  obtain ⟨s, hst, hs⟩ := h.same
  refine .intro (s := { s with writeMark := toUint32 ((counter : ℤ) + CTR_STRIDE) }) h.file ?_ ?_
  · rw [Device.World.setWriteMark, hst, Option.map_some]
  · exact { hs with writeMark := rfl }

theorem Mirrored.writeJSON (h : Mirrored w d) : Mirrored w.writeJSON d.writeJSON := by
  obtain ⟨s, hst, hs⟩ := h.same
  refine .intro ?_ (by rw [Device.World.writeJSON, hst]) hs
  rw [Device.World.writeJSON, hst]
  simp only [World.writeJSON, hs.writeMark, hs.advMark]

/-- The tallies of refusals are kept under a code's text here and under the code there. -/
theorem Mirrored.countReject (h : Mirrored w d) (e : JsError) :
    Mirrored (w.countReject e) (d.countReject e) := by
  obtain ⟨s, hst, hs⟩ := h.same
  have hcounted : (d.countReject e).st =
      some { s with rejects := Function.update s.rejects e.code (s.rejects e.code + 1) } := by
    rw [Device.World.countReject, hst, Option.map_some]
  unfold World.countReject
  split
  · exact .intro h.file hcounted { hs with }
  · exact .intro h.file hcounted { hs with }

theorem Mirrored.noteSealed (h : Mirrored w d) (info : UInt8) (counter : ℕ) :
    Mirrored w (d.noteSealed info counter) := by
  obtain ⟨hfile, hst⟩ := h
  exact ⟨hfile, hst⟩

/-! ## Programs -/

/-- What a statement of a device can meet in `env`: the power stays on, and the flash throws only
where it does in `env`. -/
def Fated (env : Env) : Fate Fault → Prop
  | .cut => False
  | .fault .storage => ∃ n f, env.throws n .writeMarks = some f
  | _ => True

/-- From worlds that mirror each other, `q` there does what `p` does here. -/
abbrev Reenacts (env : Env) {α β : Type} (S : α → β → Prop) (p : Fw α) (q : DeviceProg β) :
    World → Device.World → Prop := Follows (Fated env) Mirrored S p q

theorem follows_withSt {α β : Type} {S : α → β → Prop} {p : Fw α} {k : Device.St → DeviceProg β}
    (hst : d.st = some s) (h : Reenacts env S p (k s) w d) :
    Reenacts env S p (withSt k) w d := by
  have hrun : withSt k d = k s d := funext fun script => withSt_some k script hst
  unfold Reenacts Follows at h ⊢
  rwa [hrun]

/-- A call that may throw. -/
theorem follows_ask (h : Mirrored w d) (call : Call) {kind : Fault} (e : JsError)
    (hkind : Fated env (.fault kind)) :
    Reenacts env (fun _ _ => True) (ask env call) (Prog.call kind e id : DeviceProg Unit) w d := by
  have hleft : ∀ w', left (ask env call) w = w' → Mirrored w' d := by
    rintro w' rfl
    rw [left_ask]
    exact h
  exact .call trivial (fun w' hw => hleft w' (left_ok hw))
    fun x w' hw => ⟨hkind, hleft w' (left_error hw)⟩

theorem follows_saveMarks (h : Mirrored w d) :
    Reenacts env (fun _ _ => True) (saveMarks env) Device.saveMarks w d := by
  cases hthrows : env.throws w.calls .writeMarks with
  | none =>
      have hrun : saveMarks env w = .ok () w.asked.writeJSON := bind_of_ok (ask_of_none hthrows)
      refine .call trivial (fun w' hw => ?_) fun x w' hw => by rw [hrun] at hw; cases hw
      obtain rfl : w.asked.writeJSON = w' := (EStateM.Result.ok.inj (hrun.symm.trans hw)).2
      exact Mirrored.writeJSON (w := w.asked) h
  | some f =>
      have hrun : saveMarks env w = .error f.error w.asked := bind_of_error (ask_of_some hthrows)
      refine .call trivial (fun w' hw => by rw [hrun] at hw; cases hw) fun x w' hw => ?_
      obtain rfl : w.asked = w' := (EStateM.Result.error.inj (hrun.symm.trans hw)).2
      exact ⟨⟨_, _, hthrows⟩, h⟩

/-- Nothing here that touches no counter needs anything there. -/
theorem follows_doIf {c : Prop} [Decidable c] {c' : Prop} [Decidable c'] {p : Fw Unit}
    {q : DeviceProg Unit} (hc : c ↔ c') (h : Mirrored w d)
    (hp : c → Reenacts env (fun _ _ => True) p q w d) :
    Reenacts env (fun _ _ => True) (doIf c p) (if c' then q else pure ()) w d := by
  unfold doIf
  by_cases hcond : c
  · rw [if_pos hcond, if_pos (hc.mp hcond)]
    exact hp hcond
  · rw [if_neg hcond, if_neg fun hc' => hcond (hc.mpr hc')]
    exact .pure trivial h

theorem follows_reject (h : Mirrored w d) (e : JsError) :
    Reenacts env (fun _ _ => True) (reject env e) (Device.reject e) w d := by
  obtain ⟨s, hst, hs⟩ := h.same
  refine follows_withSt hst (Follows.bind (Follows.stmt trivial (h.countReject e)) ?_)
  intro _ _ w' d' hw' _ hR
  obtain rfl : w.countReject e = w' := (EStateM.Result.ok.inj hw').2
  have honError : (w.countReject e).st.onError = s.onError := by
    rw [← hs.onError]
    unfold World.countReject
    split <;> rfl
  refine Follows.leftLook ?_
  refine follows_doIf (by rw [id_eq, honError]) hR fun _ => ?_
  exact follows_ask hR _ _ trivial

theorem follows_noteAdvCounter (h : Mirrored w d) (counter : ℕ) :
    Reenacts env (fun _ _ => True) (noteAdvCounter env counter)
      (Device.noteAdvCounter counter) w d := by
  obtain ⟨s, hst, hs⟩ := h.same
  refine follows_withSt hst (Follows.leftLook ?_)
  refine follows_doIf (by rw [id_eq, hs.advMark]) h fun _ => ?_
  refine Follows.bind (Follows.stmt trivial (h.setAdvMark counter)) ?_
  intro _ _ w' d' _ _ hR
  exact follows_saveMarks hR

theorem follows_noteWriteCounter (h : Mirrored w d) (counter : ℕ) :
    Reenacts env (fun _ _ => True) (noteWriteCounter env counter)
      (Device.noteWriteCounter counter) w d := by
  obtain ⟨s, hst, hs⟩ := h.same
  refine follows_withSt hst (Follows.leftLook ?_)
  refine Follows.bind (Follows.stmt trivial (h.setWriteCounter counter)) ?_
  intro _ _ w' d' _ _ hR
  refine follows_doIf (by rw [id_eq, hs.writeMark]) hR fun _ => ?_
  refine Follows.bind (Follows.stmt trivial (hR.setWriteMark counter)) ?_
  intro _ _ w'' d'' _ _ hR'
  exact follows_saveMarks hR'

/-! ## Sealing and opening -/

theorem follows_sealUnder (h : Mirrored w d) (pt : Bytes) (info : UInt8) :
    Reenacts env Eq (sealUnder env pt info) (Device.sealUnder env.ccm pt info) w d := by
  obtain ⟨s, hst, hs⟩ := h.same
  refine follows_withSt hst (Follows.leftLook ?_)
  refine Follows.bind (Follows.stmt trivial h.bumpAdvCounter) ?_
  intro _ _ w₁ d₁ _ _ h₁
  refine Follows.bind (T := fun _ _ => True) ?_ ?_
  · rw [id_eq, hs.advCounter]
    exact follows_noteAdvCounter h₁ _
  intro _ _ w₂ d₂ _ _ h₂
  refine Follows.rightOnly trivial ?_
  refine Follows.bind (follows_ask (h₂.noteSealed _ _) .encrypt _ trivial) ?_
  intro _ _ w₃ d₃ _ _ h₃
  rw [id_eq, hs.key, hs.mac, hs.advCounter]
  exact .pure rfl h₃

/-- A refusal answers null. -/
theorem follows_refuse (h : Mirrored w d) (e : JsError) :
    Reenacts env Eq (do reject env e; pure none : Fw (Option Bytes))
      (do Device.reject e; pure none) w d :=
  Follows.bind (follows_reject h e) fun _ _ _ _ _ _ h₁ => .pure rfl h₁

theorem follows_openWrite (h : Mirrored w d) (pl : Bytes) :
    Reenacts env Eq (openWrite env pl) (Device.openWrite env.ccm pl) w d := by
  obtain ⟨s, hst, hs⟩ := h.same
  refine follows_withSt hst (Follows.leftLook ?_)
  rw [id_eq, hs.writeCounter, hs.key, hs.mac, Option.getD_some]
  by_cases hshort : pl.length ≤ ENC_OVERHEAD
  · rw [if_pos hshort, if_pos hshort]
    exact follows_refuse h _
  rw [if_neg hshort, if_neg hshort]
  by_cases hreplay : (!counterIsAhead (splitWrite pl).counter s.writeCounter) = true
  · dsimp only
    rw [if_pos hreplay, if_pos hreplay]
    exact follows_refuse h _
  dsimp only
  rw [if_neg hreplay, if_neg hreplay]
  refine Follows.bind (follows_ask h .decrypt _ trivial) ?_
  intro _ _ w₁ d₁ _ _ h₁
  cases env.ccm.decrypt s.key (nonceFor s.mac WRITE_INFO (splitWrite pl).counter)
      (splitWrite pl).ct (splitWrite pl).mic with
  | none => exact follows_refuse h₁ _
  | some pt =>
      refine Follows.bind (follows_noteWriteCounter h₁ _) ?_
      intro _ _ w₂ d₂ _ _ h₂
      exact .rightOnly trivial (.pure rfl h₂)

/-- A challenge of the wrong length is refused when it is written. -/
theorem follows_onChallenge (h : Mirrored w d) {challenge : Bytes}
    (hlength : challenge.length ≠ CHALLENGE_LEN) :
    Reenacts env (fun _ answer => answer = none) (onChallenge env challenge)
      (Device.counterCharacteristic env.ccm challenge) w d := by
  rw [← bind_pure (onChallenge env challenge), onChallenge, Device.counterCharacteristic,
    if_pos hlength, if_pos hlength]
  exact Follows.bind (follows_reject h _) fun _ _ _ _ _ _ h₁ => .pure rfl h₁

/-- One of the right length is answered when its callback runs. -/
theorem follows_counterReport (h : Mirrored w d) {challenge : Bytes}
    (hlength : challenge.length = CHALLENGE_LEN) :
    Reenacts env (fun sealed answer => answer = some sealed)
      (do let w ← look id; sealUnder env (challenge ++ counterBytes w.st.writeCounter) READ_INFO)
      (Device.counterCharacteristic env.ccm challenge) w d := by
  obtain ⟨s, hst, hs⟩ := h.same
  rw [Device.counterCharacteristic, if_neg (not_not.mpr hlength)]
  refine follows_withSt hst (Follows.leftLook ?_)
  rw [id_eq, hs.writeCounter, ← bind_pure (sealUnder env _ _)]
  refine Follows.bind (follows_sealUnder h _ _) ?_
  rintro value _ w₁ d₁ - rfl h₁
  exact .pure rfl h₁

/-! ## What life a world is a moment of -/

/-- An event of a device in `env`. -/
structure Happens (env : Env) (e : Device.Event) : Prop where
  powered : e ≠ .powerCut
  fated : ∀ fate ∈ e.script, Fated env fate

/-- The life goes on to where `w` mirrors it. -/
def Reaches (env : Env) (l : Life) (w : World) : Prop :=
  ∃ events : List Device.Event, (∀ e ∈ events, Happens env e) ∧
    Mirrored w (Runs.run (Life.step env.ccm) l events).world

/-- Every life that `w` mirrors goes on to where `w'` does. -/
def Lives (env : Env) (w w' : World) : Prop :=
  ∀ l : Life, Mirrored w l.world → Reaches env l w'

variable {l : Life}

theorem Reaches.refl (h : Mirrored w l.world) : Reaches env l w := ⟨[], by simp, h⟩

theorem Reaches.on (h : Reaches env l w) (hlives : Lives env w w') : Reaches env l w' := by
  obtain ⟨first, hfirst, hmid⟩ := h
  obtain ⟨second, hsecond, hend⟩ := hlives _ hmid
  refine ⟨first ++ second, ?_, by rwa [Runs.run_append]⟩
  intro e he
  rcases List.mem_append.mp he with he | he
  · exact hfirst e he
  · exact hsecond e he

instance : IsPreorder World (Lives env) where
  refl _ _ h := .refl h
  trans _ _ _ h h' l hl := (h l hl).on h'

/-- A program that an event of the device follows is an event of its life. -/
theorem reaches_of_follows {α β : Type} {S : α → β → Prop} {p : Fw α} {q : DeviceProg β}
    (event : List (Fate Fault) → Device.Event)
    (hevent : ∀ script, event script ≠ .powerCut ∧ (event script).script = script)
    (hworld : ∀ script, (l.step env.ccm (event script)).world = afterwards (q l.world script))
    (h : Reenacts env S p q w l.world) : Reaches env l (left p w) := by
  obtain ⟨script, hscript, hleft⟩ := h.left_state
  have hhappens : Happens env (event script) := by
    refine ⟨(hevent script).1, ?_⟩
    rw [(hevent script).2]
    exact hscript
  refine ⟨[event script], by simpa using hhappens, ?_⟩
  show Mirrored (left p w) (l.step env.ccm (event script)).world
  rw [hworld]
  rcases hleft with ⟨_, d', hdone, hmirrored⟩ | ⟨_, d', hthrew, hmirrored⟩
  · rwa [hdone]
  · rwa [hthrew]

theorem lives_sealUnder (pt : Bytes) (info : UInt8) :
    Frame (Lives env) (sealUnder env pt info) := fun _ _ h =>
  reaches_of_follows (.seal pt info) (fun _ => ⟨nofun, rfl⟩) (fun _ => rest_world _ _)
    (follows_sealUnder h pt info)

theorem lives_openWrite (pl : Bytes) : Frame (Lives env) (openWrite env pl) := fun _ _ h =>
  reaches_of_follows (.write pl) (fun _ => ⟨nofun, rfl⟩) (fun _ => step_write_world _ _ _)
    (follows_openWrite h pl)

/-! ## Everything else -/

/-- What `Mirrored` looks at. -/
structure Shared where
  file : Option MarksFile
  key : Option Bytes
  mac : Bytes
  advCounter : ℕ
  advMark : ℕ
  writeCounter : ℕ
  writeMark : ℕ
  onError : Bool

def shared (w : World) : Shared :=
  ⟨w.file, w.st.key, w.st.mac, w.st.advCounter, w.st.advMark, w.st.writeCounter, w.st.writeMark,
    w.st.onError⟩

theorem Mirrored.of_keeps (h : Mirrored w d) (hkeep : Keeps shared w w') : Mirrored w' d := by
  obtain ⟨s, hst, hs⟩ := h.same
  simp only [Keeps, shared, Shared.mk.injEq] at hkeep
  obtain ⟨hfile, hkey, hmac, hadv, hadvMark, hwrite, hwriteMark, honError⟩ := hkeep
  exact .intro (hfile ▸ h.file) hst
    ⟨hkey.trans hs.key, hmac.trans hs.mac, hadv.trans hs.advCounter, hadvMark.trans hs.advMark,
      hwrite.trans hs.writeCounter, hwriteMark.trans hs.writeMark, honError.trans hs.onError⟩

theorem lives_of_keeps (hkeep : Keeps shared w w') : Lives env w w' :=
  fun _ h => .refl (h.of_keeps hkeep)

theorem lives_asked (w : World) : Lives env w w.asked := lives_of_keeps rfl

theorem lives_serve (w : World) (writable : Writable) (bytes : Bytes) :
    Lives env w (w.serve writable bytes) := lives_of_keeps rfl

theorem lives_seals : Seals env (Lives env) := ⟨lives_asked, lives_sealUnder⟩

theorem lives_publishMoves : PublishMoves env (Lives env) :=
  { lives_seals with
    hand := fun _ _ _ _ => lives_of_keeps rfl
    onAir := fun _ _ => lives_of_keeps rfl
    dropLastSd := fun _ => lives_of_keeps rfl }

theorem lives_rebuildMoves : RebuildMoves env (Lives env) :=
  { lives_seals with
    bumpPacketId := fun _ => lives_of_keeps rfl
    render := fun _ _ => lives_of_keeps rfl }

theorem shared_scheduleKeeps : ScheduleKeeps shared where

theorem lives_scheduleMoves : ScheduleMoves (Lives env) where
  asked := lives_asked
  clearTimer w := lives_of_keeps (shared_scheduleKeeps.clearTimer w)
  settle _ _ _ := lives_of_keeps rfl
  setTimer _ _ := lives_of_keeps rfl

theorem shared_rateKeeps : RateKeeps shared where

theorem lives_takeMoves : TakeMoves env (Lives env) where
  asked := lives_asked
  openWrite := lives_openWrite
  countReject w e := lives_of_keeps (by unfold World.countReject; split <;> rfl)
  noteSet _ _ _ _ := lives_of_keeps rfl
  defer _ _ := lives_of_keeps rfl

/-- Sealing and opening are all that touches a counter. -/
theorem lives_eventMoves : EventMoves env (Lives env) :=
  { (lives_publishMoves : PublishMoves env (Lives env)),
    (lives_rebuildMoves : RebuildMoves env (Lives env)),
    (lives_scheduleMoves : ScheduleMoves (Lives env)),
    (lives_takeMoves : TakeMoves env (Lives env)) with
    read := fun _ _ _ => lives_of_keeps rfl
    noteReturn := fun _ => lives_of_keeps rfl
    clearFastTimer := fun w => lives_of_keeps (shared_rateKeeps.clearFastTimer w)
    setAdvInterval := fun _ _ => lives_of_keeps rfl
    serve := lives_serve
    setChangeTimer := fun _ => lives_of_keeps rfl
    setFastTimer := fun _ => lives_of_keeps rfl
    goneIdle := fun _ => lives_of_keeps rfl
    interval := fun _ _ => lives_of_keeps rfl
    inherited := fun _ _ => lives_of_keeps rfl
    forgotten := fun _ => lives_of_keeps rfl
    fastTimeout := fun _ _ => lives_of_keeps rfl
    reported := fun _ _ => lives_of_keeps rfl
    spent := fun _ _ => lives_of_keeps rfl
    store := fun _ _ _ => lives_of_keeps rfl
    taken := fun _ => lives_of_keeps rfl
    bumpRevision := fun _ => lives_of_keeps rfl
    dropChangeTimer := fun _ => lives_of_keeps rfl }

/-! ## `setup` -/

variable {opts : SetupOpts} {b : Board} {next : St} {key : Bytes}

/-- `st = next` there, for a device that resumes with `next` here. -/
theorem Mirrors.swap (h : Mirrors b.file b.st d)
    (hnext : buildNext env opts b.nextObject b.toOutside = .ok next)
    (hkey : next.key = some key) :
    Mirrored (b.swap next)
      (d.swap ⟨key, next.mac, next.onError, []⟩ (loadMarks d.file)) := by
  obtain ⟨-, -, marks, hread, hresumed⟩ := buildNext_ok hnext
  obtain rfl := marks_of_resumedMarks hread (by rw [hkey, Option.isSome_some])
  rw [h.file]
  refine .intro (h.file.trans (file_swap b next).symm) rfl ?_
  exact ⟨hkey, rfl, hresumed.advCounter, hresumed.advMark, hresumed.writeCounter,
    hresumed.writeMark, rfl⟩

/-- What `setup` does up to the save of the marks is one event of the life. -/
theorem reaches_saveMarks (h : Mirrors b.file b.st l.world)
    (hnext : buildNext env opts b.nextObject b.toOutside = .ok next)
    (hkey : next.key = some key) :
    Reaches env l (left (saveMarks env) (b.swap next)) := by
  have hfollows : Reenacts env (fun _ _ => True) (saveMarks env)
      (Device.setup env.ccm ⟨key, next.mac, next.onError, []⟩) (b.swap next) l.world := by
    refine .rightLook (.rightCall trivial (.rightOnly trivial ?_))
    rw [← bind_pure (saveMarks env)]
    refine Follows.bind (follows_saveMarks (h.swap hnext hkey)) ?_
    intro _ _ w₁ d₁ _ _ h₁
    exact .pure trivial h₁
  exact reaches_of_follows (.setup ⟨key, next.mac, next.onError, []⟩)
    (fun _ => ⟨nofun, rfl⟩) (fun _ => rest_world _ _) hfollows

/-- And the rest of it touches no counter but by sealing. -/
theorem reaches_install (h : Mirrors b.file b.st l.world)
    (hnext : buildNext env opts b.nextObject b.toOutside = .ok next)
    (hkey : next.key = some key) :
    Reaches env l (left (install env opts) (b.swap next)) := by
  have hevents : EventMoves env (Lives env) := lives_eventMoves
  have hpublish : Frame (Lives env) (always (refreshAdvertising env false) (attend env)) :=
    Frame.always (hevents.toTickMoves.refreshAdvertising false)
      (frame_attend hevents.toScheduleMoves.schedule fun _ => lives_of_keeps rfl)
  -- a device with a key claims the counters first, and that is the event `setup` of the
  -- life
  have hclaim : claim env opts (b.swap next) = (do
      saveMarks env
      doIf (next.plan.writable ≠ []) do
        let values ← readValues env next.plan.writable
        ask env .setServices
        update (World.register values (opts.counterReport && next.key.isSome)) : Fw Unit)
      (b.swap next) := by
    have hsome : (b.swap next).st.key.isSome = true := by
      show next.key.isSome = true
      rw [hkey, Option.isSome_some]
    unfold claim
    rw [look_bind, id_eq, doIf, if_pos hsome]
    rfl
  rw [install_eq]
  refine left_bind ?_ fun _ w₁ _ h₁ => Reaches.on h₁ (hpublish w₁)
  rw [left_congr hclaim]
  refine left_bind (reaches_saveMarks h hnext hkey) fun _ w₁ _ h₁ => h₁.on ?_
  exact lives_seals.enrol lives_serve (fun _ _ => lives_of_keeps rfl) _ _ w₁

/-! ## A whole run -/

theorem exists_setup (h : Mirrors b.file b.st l.world) (hkeyed : opts.bindkey.isSome = true) :
    ∃ events : List Device.Event, (∀ e ∈ events, Happens env e) ∧
      Mirrors (left (setup env opts) b).file (left (setup env opts) b).st
        (Runs.run (Life.step env.ccm) l events).world := by
  cases hnext : buildNext env opts b.nextObject b.toOutside with
  | error e =>
      refine ⟨[], by simp, ?_⟩
      rw [left_setup_of_error hnext]
      exact h
  | ok next =>
      obtain ⟨-, hkey, -⟩ := buildNext_ok hnext
      obtain ⟨key, hkey⟩ := Option.isSome_iff_exists.mp ((isSome_of_toKey hkey).trans hkeyed)
      obtain ⟨events, hhappens, hmirrored⟩ := reaches_install h hnext hkey
      refine ⟨events, hhappens, ?_⟩
      rw [left_setup_of_ok hnext]
      exact hmirrored

/-- Whatever a device does that is always set up with a key, its counters, its marks and the file
are those of a life in the same environment. -/
theorem exists_life (env : Env) (file : Option MarksFile) {events : List BoardEvent}
    (hkeyed : ∀ opts, .setup opts ∈ events → opts.bindkey.isSome = true) :
    let b := Runs.run (Board.step env) (Board.powerOn file) events
    ∃ life : List Device.Event, (∀ e ∈ life, Happens env e) ∧
      Mirrors b.file b.st (Runs.run (Life.step env.ccm) (Life.powerOn file) life).world := by
  have hstep : ∀ (b : Board) (event : BoardEvent) (l : Life),
      (∀ opts, event = .setup opts → opts.bindkey.isSome = true) →
      Mirrors b.file b.st l.world →
      ∃ life : List Device.Event, (∀ e ∈ life, Happens env e) ∧
        Mirrors (b.step env event).file (b.step env event).st
          (Runs.run (Life.step env.ccm) l life).world := by
    intro b event l hevent h
    cases event with
    | setup opts => exact exists_setup h (hevent opts rfl)
    | on event =>
        -- before its first `setup` the device reacts to nothing
        cases hst : b.st with
        | none =>
            refine ⟨[], by simp, ?_⟩
            simp only [Board.step, hst]
            rwa [hst] at h
        | some st =>
            rw [hst] at h
            simp only [Board.step, hst]
            have hevents : EventMoves env (Lives env) := lives_eventMoves
            exact hevents.react (b.world st) event l h
  have hstart : Mirrors (Board.powerOn file).file (Board.powerOn file).st
      (Life.powerOn file).world := ⟨rfl, .none⟩
  exact Runs.run_simulation (R := fun (b : Board) (l : Life) => Mirrors b.file b.st l.world)
    hstep hstart fun event hevent opts hopts => hkeyed opts (hopts ▸ hevent)

/-- A law of the lives: as long as no save of the marks throws, what a reboot would resume from is
the mark of the running device, and ahead of its counter. -/
theorem resumes_ahead (env : Env) (file : Option MarksFile) {events : List BoardEvent}
    (hkeyed : ∀ opts, .setup opts ∈ events → opts.bindkey.isSome = true)
    (hflash : ∀ n, env.throws n .writeMarks = none) {st : St}
    (hst : (Runs.run (Board.step env) (Board.powerOn file) events).st = some st) :
    st.advMark =
        (loadMarks (Runs.run (Board.step env) (Board.powerOn file) events).file).a ∧
      counterIsAhead st.advMark st.advCounter := by
  obtain ⟨life, hhappens, hmirrors⟩ := exists_life env file hkeyed
  have hworks : ∀ e ∈ life, FlashWorks e := by
    rintro e he fate hfate rfl
    obtain ⟨n, f, hthrows⟩ := (hhappens e he).fated _ hfate
    rw [hflash] at hthrows
    cases hthrows
  -- on a flash that works the file is never behind the mark in memory
  obtain ⟨hinv, hsync⟩ := advInv_run_synced env.ccm file hworks
  rw [hst] at hmirrors
  obtain ⟨s, hs, hsame⟩ := hmirrors.same
  have hlive := hinv.live s hs
  have hlt := hlive.lt_mark
  have hle := hlive.mark_le
  refine ⟨?_, ?_⟩
  · rw [hsame.advMark, ← hmirrors.file]
    exact hinv.synced_iff.mp hsync s hs
  · rw [hsame.advMark, hsame.advCounter, hlive.mark, hlive.counter]
    refine ahead_of_behind hlt ?_
    unfold ADV_STRIDE at hle
    omega

end BTHomeWritable.Firmware
