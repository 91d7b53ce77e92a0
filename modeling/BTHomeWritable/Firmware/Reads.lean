import BTHomeWritable.Firmware.Accounts
import BTHomeWritable.Firmware.Plans

/-!
# Readable characteristics after a write

The stack stores a central's bytes into the characteristic after `onWrite`, so
the module publishes the entry's own value one turn later.  `handleWrite` sees
to it for every write it is given.  `openWrite` does not: what it refuses, and
what throws in it, never gets that far, and the bytes stay unless a callback for
the characteristic was pending before.

## Strategy

* One callback: `readValue` returns just where its sealing is not stopped
  (`readValue_returns_iff`), and then the characteristic holds what it returned
  (`held_of_speaks`); a callback for another entry does not touch it.
* All of a turn: `SpokenFor` says that the last callback for the entry which
  nothing stops is one for this entry, and `readBack_iff` that this is when the
  characteristic ends up with the entry's own value.
* The write before them: `deferred_writeEvent` computes which callbacks are
  pending once a write has been taken (`pendingAfter`).

`written_bytes_replaced_iff` is the result, in every state a device reaches;
`short_write_stays` is a refused write that stays in the characteristic.
-/

namespace BTHomeWritable.Firmware

open Device Throwing

variable {env : Env} {w : World} {writable : Writable}

/-! ## Turns -/

/-- Neither the flash nor the cipher throws when something is sealed now. -/
def SealsQuietly (env : Env) (w : World) : Prop :=
  if reachedMark (toUint32 ((w.st.advCounter : ℤ) + 1)) w.st.advMark ADV_STRIDE then
    env.throws w.calls .writeMarks = none ∧ env.throws (w.calls + 1) .encrypt = none
  else env.throws w.calls .encrypt = none

/-- A callback for `writable` gets as far as the radio: its entry is there to be read, and sealing
what was read meets no fault. -/
def Speaks (env : Env) (writable : Writable) (w : World) : Prop :=
  ∃ e, w.st.entries[writable.entryIndex]? = some e ∧ e.hasGet = true ∧
    (w.st.key.isSome = true → SealsQuietly env w.asked)

/-- `get()` does not throw in a callback for `writable`, nor the radio. -/
def ReadAnswered (env : Env) (writable : Writable) (w : World) : Prop :=
  (∃ o, env.reading w.calls writable.entryIndex = .ok o) ∧
    ∀ value u, readValue env writable w = .ok value u → env.throws u.calls .updateServices = none

/-- `get()` and the radio do not throw in the callbacks `ds`. -/
def Undisturbed (env : Env) : List Deferred → World → Prop
  | [], _ => True
  | d :: rest, w => (∀ writable, d = .publishRead writable → ReadAnswered env writable w) ∧
      Undisturbed env rest (left (runDeferred env d) w)

/-- None of the callbacks `ds` gets to the radio with characteristic `k`. -/
def Silent (env : Env) (k : ℕ) : List Deferred → World → Prop
  | [], _ => True
  | d :: rest, w =>
      (∀ writable, d = .publishRead writable → writable.entry = k → ¬ Speaks env writable w) ∧
        Silent env k rest (left (runDeferred env d) w)

/-- The last of the callbacks `ds` that gets to the radio with the characteristic of `writable`
is one for `writable`. -/
def SpokenFor (env : Env) (writable : Writable) : List Deferred → World → Prop
  | [], _ => False
  | d :: rest, w =>
      SpokenFor env writable rest (left (runDeferred env d) w) ∨
        (d = .publishRead writable ∧ Speaks env writable w ∧
          Silent env writable.entry rest (left (runDeferred env d) w))

/-- After the callbacks `ds` the characteristic holds what `readValue` returned for `writable`
when the turn of one of them had come. -/
def ReadBack (env : Env) (writable : Writable) (ds : List Deferred) (w : World) : Prop :=
  ∃ before after value u, ds = before ++ .publishRead writable :: after ∧
    readValue env writable (runAll env before w) = .ok value u ∧
    (runAll env ds w).held writable.entry = .served writable value

/-! ## One callback -/

theorem held_sealKeeps : SealKeeps fun w : World => w.held where

theorem noteAdvCounter_eq (counter : ℕ) (w : World) :
    noteAdvCounter env counter w =
      if reachedMark counter w.st.advMark ADV_STRIDE then saveMarks env (w.setAdvMark counter)
      else .ok () w := by
  unfold noteAdvCounter
  simp only [look_bind, id_eq, doIf]
  by_cases hreached : reachedMark counter w.st.advMark ADV_STRIDE
  · rw [if_pos hreached, if_pos hreached, update_bind]
  · rw [if_neg hreached, if_neg hreached, pure_apply]

/-- What is left of `seal` once the counter is noted. -/
theorem encrypt_returns_iff (sealed : Bytes) :
    Returns (do ask env .encrypt; pure sealed : Fw Bytes) w ↔
      env.throws w.calls .encrypt = none := by
  unfold Returns
  cases hcipher : env.throws w.calls .encrypt with
  | some f =>
      rw [bind_of_error (ask_of_some hcipher)]
      simp
  | none =>
      rw [bind_of_ok (ask_of_none hcipher)]
      simp

theorem sealUnder_returns_iff (pt : Bytes) (info : UInt8) (hkey : w.st.key.isSome = true) :
    Returns (sealUnder env pt info) w ↔ SealsQuietly env w := by
  obtain ⟨key, hkey⟩ := Option.isSome_iff_exists.mp hkey
  unfold Returns sealUnder SealsQuietly
  simp only [look_bind, update_bind, id_eq, hkey]
  generalize toUint32 ((w.st.advCounter : ℤ) + 1) = counter
  have hnoted : noteAdvCounter env counter w.bumpAdvCounter = _ :=
    noteAdvCounter_eq counter w.bumpAdvCounter
  have hmark : w.bumpAdvCounter.st.advMark = w.st.advMark := rfl
  rw [hmark] at hnoted
  by_cases hreached : reachedMark counter w.st.advMark ADV_STRIDE
  · rw [if_pos hreached] at hnoted ⊢
    unfold saveMarks at hnoted
    cases hflash : env.throws w.calls .writeMarks with
    | some f =>
        rw [bind_of_error (hnoted.trans (bind_of_error (ask_of_some hflash)))]
        simp
    | none =>
        rw [bind_of_ok (hnoted.trans (bind_of_ok (ask_of_none hflash)))]
        simp only [true_and]
        exact encrypt_returns_iff _
  · rw [if_neg hreached] at hnoted ⊢
    rw [bind_of_ok hnoted]
    exact encrypt_returns_iff _

theorem readValue_returns_iff (hread : ∃ o, env.reading w.calls writable.entryIndex = .ok o) :
    Returns (readValue env writable) w ↔ Speaks env writable w := by
  obtain ⟨o, hread⟩ := hread
  unfold Speaks
  simp only [Returns, readValue, look_bind, id_eq]
  cases w.st.entries[writable.entryIndex]? with
  | none => simp
  | some e =>
      cases hget : e.hasGet with
      | false => simp [hget]
      | true =>
          simp only [hread]
          by_cases hkey : w.st.key.isSome = true
          · simp only [hkey, if_true, Option.some.injEq, exists_eq_left', hget, true_and,
              forall_true_left]
            exact sealUnder_returns_iff (w := w.asked) _ _ hkey
          · simp [hkey, hget]

/-- A callback that speaks leaves what it has read. -/
theorem held_of_speaks (h : ReadAnswered env writable w) (hspeaks : Speaks env writable w) :
    ∃ value u, readValue env writable w = .ok value u ∧
      (left (runDeferred env (.publishRead writable)) w).held =
        Function.update w.held writable.entry (.served writable value) := by
  obtain ⟨value, u, hvalue⟩ := (readValue_returns_iff h.1).mpr hspeaks
  refine ⟨value, u, hvalue, ?_⟩
  have hrun : publishRead env writable w = .ok () (u.asked.serve writable value) := by
    unfold publishRead
    rw [bind_of_ok hvalue, bind_of_ok (ask_of_none (h.2 value u hvalue))]
    rfl
  have hkept : u.held = w.held := ((held_sealKeeps).readValue writable).ok hvalue
  have hleft : left (runDeferred env (.publishRead writable)) w = u.asked.serve writable value :=
    left_ok (attempt_of_ok hrun)
  rw [hleft]
  show Function.update u.held writable.entry _ = _
  rw [hkept]

theorem held_report (e : JsError) (w : World) : (left (report env e) w).held = w.held :=
  (keeps_report (f := fun w : World => w.held) (fun _ => rfl) e).left_eq w

/-- A callback that does not leaves the characteristics as they are. -/
theorem held_of_not_speaks (h : ReadAnswered env writable w) (hsilent : ¬ Speaks env writable w) :
    (left (runDeferred env (.publishRead writable)) w).held = w.held := by
  rw [← readValue_returns_iff h.1] at hsilent
  cases hvalue : readValue env writable w with
  | ok value u => exact absurd ⟨value, u, hvalue⟩ hsilent
  | error e u =>
      have hrun : publishRead env writable w = .error e u := bind_of_error hvalue
      have hreport : left (runDeferred env (.publishRead writable)) w = left (report env e) u := by
        simp only [left, runDeferred, guarded]
        rw [attempt_of_error hrun]
      rw [hreport, held_report]
      exact ((held_sealKeeps).readValue writable).error hvalue

theorem held_counterReport (challenge : Bytes) (w : World) :
    (left (runDeferred env (.counterReport challenge)) w).held = w.held := by
  refine Frame.left_eq (f := fun w : World => w.held) (Frame.attempt ?_ fun e => ?_) w
  · refine Frame.bind (Frame.look id) fun w => ?_
    refine Frame.bind ((held_sealKeeps).sealUnder _ _) fun value => ?_
    exact Frame.bind (keeps_ask (held_sealKeeps).asked _) fun _ => Frame.update fun w => rfl
  · exact keeps_report (held_sealKeeps).asked _

/-! ## All of them -/

theorem held_of_silent {k : ℕ} {ds : List Deferred} (hquiet : Undisturbed env ds w)
    (h : Silent env k ds w) : (runAll env ds w).held k = w.held k := by
  induction ds generalizing w with
  | nil => rfl
  | cons d rest ih =>
      refine (ih hquiet.2 h.2).trans ?_
      cases d with
      | counterReport challenge => rw [held_counterReport]
      | publishRead other =>
          have hanswered := hquiet.1 other rfl
          by_cases hspeaks : Speaks env other w
          · obtain ⟨value, u, -, hheld⟩ := held_of_speaks hanswered hspeaks
            have hother : k ≠ other.entry := fun hsame => h.1 other rfl hsame.symm hspeaks
            rw [hheld, Function.update_of_ne hother]
          · rw [held_of_not_speaks hanswered hspeaks]

/-- A reading of `writable` that is held was published by one of the callbacks, or before them. -/
theorem spokenFor_of_held {ds : List Deferred} {value : Bytes} (hquiet : Undisturbed env ds w)
    (hheld : (runAll env ds w).held writable.entry = .served writable value) :
    SpokenFor env writable ds w ∨
      (Silent env writable.entry ds w ∧ w.held writable.entry = .served writable value) := by
  induction ds generalizing w with
  | nil => exact Or.inr ⟨trivial, hheld⟩
  | cons d rest ih =>
      rcases ih hquiet.2 hheld with hlater | ⟨hsilent, hbefore⟩
      · exact Or.inl (Or.inl hlater)
      cases d with
      | counterReport challenge =>
          rw [held_counterReport] at hbefore
          exact Or.inr ⟨⟨fun _ h => (by cases h), hsilent⟩, hbefore⟩
      | publishRead other =>
          have hanswered := hquiet.1 other rfl
          by_cases hspeaks : Speaks env other w
          · obtain ⟨read, u, -, hserved⟩ := held_of_speaks hanswered hspeaks
            rw [hserved] at hbefore
            by_cases hentry : writable.entry = other.entry
            · rw [hentry, Function.update_self] at hbefore
              obtain ⟨rfl, -⟩ := Held.served.inj hbefore
              exact Or.inl (Or.inr ⟨rfl, hspeaks, hsilent⟩)
            · rw [Function.update_of_ne hentry] at hbefore
              refine Or.inr ⟨⟨fun _ h hsame => ?_, hsilent⟩, hbefore⟩
              cases h
              exact absurd hsame.symm hentry
          · rw [held_of_not_speaks hanswered hspeaks] at hbefore
            refine Or.inr ⟨⟨fun _ h _ => ?_, hsilent⟩, hbefore⟩
            cases h
            exact hspeaks

theorem readBack_of_spokenFor {ds : List Deferred} (hquiet : Undisturbed env ds w)
    (h : SpokenFor env writable ds w) : ReadBack env writable ds w := by
  induction ds generalizing w with
  | nil => exact h.elim
  | cons d rest ih =>
      rcases h with hlater | ⟨rfl, hspeaks, hsilent⟩
      · obtain ⟨before, after, value, u, rfl, hvalue, hheld⟩ := ih hquiet.2 hlater
        exact ⟨d :: before, after, value, u, rfl, hvalue, hheld⟩
      · obtain ⟨value, u, hvalue, hserved⟩ := held_of_speaks (hquiet.1 writable rfl) hspeaks
        refine ⟨[], rest, value, u, rfl, hvalue, (held_of_silent hquiet.2 hsilent).trans ?_⟩
        rw [hserved, Function.update_self]

theorem readBack_iff {ds : List Deferred} (data : Bytes) (hquiet : Undisturbed env ds w)
    (hwritten : w.held writable.entry = .written data) :
    ReadBack env writable ds w ↔ SpokenFor env writable ds w := by
  constructor
  · rintro ⟨before, after, value, u, -, -, hheld⟩
    rcases spokenFor_of_held hquiet hheld with h | ⟨-, hserved⟩
    · exact h
    · rw [hwritten] at hserved
      cases hserved
  · exact readBack_of_spokenFor hquiet

/-! ## The write before them -/

theorem deferred_tickKeeps : TickKeeps fun w : World => w.deferred where

theorem deferred_rateKeeps : RateKeeps fun w : World => w.deferred where

theorem deferred_reject (e : JsError) (w : World) : (left (reject env e) w).deferred = w.deferred :=
  (keeps_reject (f := fun w : World => w.deferred) (fun _ => rfl) fun u => by
    unfold World.countReject
    split <;> rfl).left_eq w

variable (env) in
/-- Applying a write does not throw, and defers nothing. -/
theorem applyWrite_returns (writable : Writable) (pl : Bytes) (w : World) :
    ∃ refused u, applyWrite env writable pl w = .ok refused u ∧ u.deferred = w.deferred := by
  unfold applyWrite
  simp only [look_bind, id_eq]
  cases w.st.entries[writable.entryIndex]? with
  | none => exact ⟨_, _, rfl, rfl⟩
  | some e =>
      cases parseWrite pl writable with
      | error x => exact ⟨_, _, rfl, rfl⟩
      | ok value =>
          simp only [callSet]
          cases env.set w.calls writable.entryIndex (decodeValue value writable.spec) with
          | ok _ => exact ⟨_, _, rfl, rfl⟩
          | error thrown => exact ⟨_, _, rfl, rfl⟩

/-- Whatever becomes of a write, its entry is to be published again. -/
theorem deferred_handleWrite {k : ℕ} (pl : Bytes)
    (hentry : w.st.plan.writable[k - 1]? = some writable) (hreadable : writable.readable = true) :
    (left (handleWrite env k pl) w).deferred = w.deferred ++ [.publishRead writable] := by
  obtain ⟨refused, u, happly, hdeferred⟩ := applyWrite_returns env writable pl w
  have hleft : left (handleWrite env k pl) w =
      left (refused.elim (guarded env (reaction env)) (reject env)) (deferRead writable u) :=
    left_congr (handleWrite_of_applied hentry happly)
  have hread : (deferRead writable u).deferred = w.deferred ++ [.publishRead writable] := by
    rw [deferRead, if_pos hreadable, ← hdeferred]
    rfl
  rw [hleft, ← hread]
  cases refused with
  | some e => exact deferred_reject e _
  | none =>
      exact (keeps_guarded (fun _ => rfl)
        (keeps_reaction deferred_tickKeeps deferred_rateKeeps)).left_eq _

def Arrival.isOpened : Arrival → Bool
  | .opened _ _ => true
  | _ => false

/-- The write gets as far as `handleWrite`. -/
def handled (env : Env) (data : Bytes) (w : World) : Bool :=
  !w.st.key.isSome || (arrival env data w).isOpened

/-- The callbacks pending after a write to a readable entry: those pending before, and one for
the entry if the write was handled. -/
def pendingAfter (env : Env) (writable : Writable) (data : Bytes) (w : World) : List Deferred :=
  w.deferred ++ if handled env data w then [.publishRead writable] else []

theorem deferred_writeEvent {k : ℕ} (data : Bytes)
    (hentry : w.st.plan.writable[k - 1]? = some writable) (hreadable : writable.readable = true) :
    (writeEvent env k data w).deferred = pendingAfter env writable data w := by
  show (left (onWrite env k data) w).deferred = _
  unfold pendingAfter handled
  by_cases hkey : w.st.key.isSome = true
  swap
  · have hleft : left (onWrite env k data) w = left (handleWrite env k data) w :=
      left_congr (onWrite_of_plain hkey)
    rw [hleft, deferred_handleWrite data hentry hreadable]
    simp [hkey]
  obtain ⟨u, hdoor, ⟨e, harrival, -⟩ | ⟨e, harrival⟩ | ⟨pl, harrival, -⟩⟩ :=
    arrival_cases env data w
  · have hleft : left (onWrite env k data) w = left (reject env e) u :=
      left_congr (onWrite_of_refused hkey harrival)
    rw [hleft, deferred_reject, hdoor.deferred]
    simp [hkey, harrival, Arrival.isOpened]
  · rw [left_error (onWrite_of_thrown hkey harrival), hdoor.deferred]
    simp [hkey, harrival, Arrival.isOpened]
  · have hleft : left (onWrite env k data) w = left (handleWrite env k pl) u :=
      left_congr (onWrite_of_opened hkey harrival)
    rw [← hdoor.plan] at hentry
    rw [hleft, deferred_handleWrite pl hentry hreadable, hdoor.deferred]
    simp [hkey, harrival, Arrival.isOpened]

/-! ## The characteristic in the end -/

/-- `get()` and the radio do not throw in the callbacks that are pending after a write. -/
def CallbacksAnswered (env : Env) (writable : Writable) (data : Bytes) (w : World) : Prop :=
  Undisturbed env (writeEvent env writable.entry data w).deferred
    { writeEvent env writable.entry data w with deferred := [] }

/-- Once the callbacks pending after a write have had their `turn`, the characteristic holds what
`readValue` returned in one of them. -/
def ReadBackAfter (env : Env) (writable : Writable) (data : Bytes) (w : World) : Prop :=
  ReadBack env writable (writeEvent env writable.entry data w).deferred
    { writeEvent env writable.entry data w with deferred := [] }

/-- The write was handled, or a callback for the characteristic was pending before; and the last
such callback that neither the flash nor the cipher stops is one for this entry. -/
def Republishes (env : Env) (writable : Writable) (data : Bytes) (w : World) : Prop :=
  SpokenFor env writable (pendingAfter env writable data w)
    { writeEvent env writable.entry data w with deferred := [] }

/-- A readable characteristic is rid of a central's bytes exactly when its entry is published
again: whatever the device has been through, and whatever was written. -/
theorem written_bytes_replaced_iff (env : Env) (file : Option MarksFile)
    (events : List BoardEvent) (st : St) (writable : Writable) (data : Bytes)
    (hst : (Runs.run (Board.step env) (Board.powerOn file) events).st = some st)
    (hentry : writable ∈ st.plan.writable) (hreadable : writable.readable = true)
    (hanswered : CallbacksAnswered env writable data
      ((Runs.run (Board.step env) (Board.powerOn file) events).world st)) :
    ReadBackAfter env writable data
        ((Runs.run (Board.step env) (Board.powerOn file) events).world st) ↔
      Republishes env writable data
        ((Runs.run (Board.step env) (Board.powerOn file) events).world st) := by
  have hnumbered : Numbered st.plan.writable := numbered_run env file events st hst
  unfold Republishes
  rw [← deferred_writeEvent data (hnumbered.getElem? hentry) hreadable]
  exact readBack_iff data hanswered (Function.update_self _ _ _)

/-- A device with a key, after `setup()`. -/
def sealedBoard : Board :=
  Runs.run (Board.step sampleEnv) (Board.powerOn none) [.setup sampleKeyed]

def sealedSt : St := sealedBoard.st.get (by decide)

/-- The light of the sample device, as its plan has it. -/
def plannedLight : Writable where
  spec := { id := 0x0F, length := some 1, variableLength := false, codec := .bytes }
  entry := 1
  entryIndex := 1
  readable := true

set_option maxRecDepth 4000 in
/-- Three bytes are no sealed write: it is refused, nothing is pending, and they stay. -/
theorem short_write_stays :
    sealedBoard.st = some sealedSt ∧ plannedLight ∈ sealedSt.plan.writable ∧
      CallbacksAnswered sampleEnv plannedLight [1, 2, 3] (sealedBoard.world sealedSt) ∧
      (turn sampleEnv (writeEvent sampleEnv 1 [1, 2, 3] (sealedBoard.world sealedSt))).held 1 =
        .written [1, 2, 3] ∧
      ¬ ReadBackAfter sampleEnv plannedLight [1, 2, 3] (sealedBoard.world sealedSt) := by
  have hnone : (writeEvent sampleEnv 1 [1, 2, 3] (sealedBoard.world sealedSt)).deferred = [] := rfl
  refine ⟨(Option.some_get _).symm, by decide, ?_, by decide, ?_⟩
  · show Undisturbed _ (writeEvent sampleEnv 1 [1, 2, 3] (sealedBoard.world sealedSt)).deferred _
    rw [hnone]
    trivial
  · rintro ⟨before, after, value, u, hsplit, -⟩
    have hlength := congrArg List.length (hnone.symm.trans hsplit)
    simp at hlength

set_option maxRecDepth 4000 in
/-- The light switched on: its own value is back one turn later. -/
theorem written_bytes_replaced_sample :
    ReadBackAfter sampleEnv plannedLight [0x0F, 0x01] (plainBoard.world plainSt) := by
  have hpending : (writeEvent sampleEnv 1 [0x0F, 0x01] (plainBoard.world plainSt)).deferred =
      [.publishRead plannedLight] := rfl
  refine (written_bytes_replaced_iff sampleEnv none [.setup sampleOpts] plainSt plannedLight
    [0x0F, 0x01] (Option.some_get _).symm (by decide) rfl ?_).mpr ?_
  · show Undisturbed _ (writeEvent sampleEnv 1 [0x0F, 0x01] (plainBoard.world plainSt)).deferred _
    rw [hpending]
    refine ⟨?_, trivial⟩
    rintro writable ⟨⟩
    exact ⟨⟨_, rfl⟩, fun _ _ _ => rfl⟩
  · exact Or.inr ⟨rfl, ⟨sampleLight, rfl, rfl, fun h => absurd h (by decide)⟩, trivial⟩

end BTHomeWritable.Firmware
