import BTHomeWritable.Firmware.Frames

/-!
# Every write leaves a trace

A write is either applied, by one `set()` that returns, or counted in
`rejects()`, once; and nothing is thrown into the stack's callback.  The write
path keeps this wherever it refuses a write itself.  It does not where the
cipher or the flash throws before the write is handled, where `set()` throws
what the module takes for no refusal or cannot count, and where `onError`
itself throws.

`Traced` is the property, about the `Tally` of `set()` calls and counts before and
after; `Accounted` is the condition, on the state before and on what the calls of
the write path come to.

## Strategy

* `Arrival` says where `openWrite` takes a write: to `reject`, out of the
  callback, or to `handleWrite`.  `arrival_cases` is `openWrite` in these terms.
* A refusal settles the write if the code can be counted and the report returns
  (`settles_reject_iff`).
* Handling goes by whether the parser takes the bytes and by what `set()` does
  (`settles_refused_iff`, `settles_set_iff`); what follows an accepted write
  leaves the tally alone (`tally_guarded_reaction`).

`write_traced_iff` puts the three arrivals together.
`write_lost_when_cipher_throws` is a write of which nothing is left.
-/

namespace BTHomeWritable.Firmware

open Device Throwing

variable {env : Env} {w : World}

/-! ## Traces -/

/-- The calls of a `set()` so far, and the counts of `rejects()`. -/
abbrev Tally := List SetCall × (String → ℕ)

def tally (w : World) : Tally := (w.sets, w.st.rejects)

/-- One more `set()`, that returned, and nothing counted. -/
def Applied (call : SetCall) (t t' : Tally) : Prop := t' = (t.1 ++ [call], t.2)

/-- One count went up by one, and no `set()` returned. -/
def Counted (t t' : Tally) : Prop :=
  (∃ calls : List SetCall, t'.1 = t.1 ++ calls ∧ ∀ call ∈ calls, call.returned = false) ∧
    ∃ code, t'.2 = Function.update t.2 code (t.2 code + 1)

/-- `p` returns with the write applied by a call out of `Decoded`, or counted. -/
def Settles (Decoded : SetCall → Prop) (t : Tally) (p : Fw Unit) (w : World) : Prop :=
  ∃ w', p w = .ok () w' ∧ ((∃ call, Decoded call ∧ Applied call t (tally w')) ∨
    Counted t (tally w'))

/-- What the bytes of a write say, as far as they can be read. -/
def plaintext (env : Env) (st : St) (data : Bytes) : Option Bytes :=
  if st.key.isSome then
    env.ccm.decrypt (st.key.getD []) (nonceFor st.mac WRITE_INFO (splitWrite data).counter)
      (splitWrite data).ct (splitWrite data).mic
  else some data

/-- The call of `set()` that object `pl`, written to entry `k`, asks for. -/
def AsksFor (st : St) (k : ℕ) (pl : Bytes) (call : SetCall) : Prop :=
  ∃ writable value, st.plan.writable[k - 1]? = some writable ∧
    parseWrite pl writable = .ok value ∧
    call = ⟨writable.entryIndex, decodeValue value writable.spec, true⟩

/-- The write was applied with the value it decodes to, or counted once, and `onWrite` returned. -/
def Traced (env : Env) (k : ℕ) (data : Bytes) (w : World) : Prop :=
  Settles (fun call => ∃ pl, plaintext env w.st data = some pl ∧ AsksFor w.st k pl call)
    (tally w) (onWrite env k data) w

/-! ## The condition -/

/-- `onError` is not there, or will not throw when told of `e`. -/
def Quiet (env : Env) (w : World) (e : JsError) : Prop :=
  w.st.onError = true → env.throws w.calls (.onError e) = none

/-- Where `openWrite` takes a write: to `reject`, out of the callback, or to `handleWrite`. -/
inductive Arrival where
  | refused (e : JsError) (w : World)
  | thrown (e : JsError) (w : World)
  | opened (pl : Bytes) (w : World)

/-- A write that authenticated, and the marks that may have to be saved for its counter. -/
def noted (env : Env) (counter : ℕ) (pt : Bytes) (w : World) : Arrival :=
  if counter ≥ w.st.writeMark then
    match env.throws w.calls .writeMarks with
    | some f => .thrown f.error ((w.setWriteCounter counter).setWriteMark counter).asked
    | none => .opened pt ((w.setWriteCounter counter).setWriteMark counter).asked.writeJSON
  else .opened pt (w.setWriteCounter counter)

def arrival (env : Env) (data : Bytes) (w : World) : Arrival :=
  if data.length ≤ ENC_OVERHEAD then
    .refused (err .truncated
      s!"encrypted write is {data.length} bytes, shorter than its own framing") w
  else if !counterIsAhead (splitWrite data).counter w.st.writeCounter then
    .refused (err .counterNotIncreasing
      s!"write counter {(splitWrite data).counter} is not ahead of {w.st.writeCounter}") w
  else
    match env.throws w.calls .decrypt with
    | some f => .thrown f.error w.asked
    | none =>
        match env.ccm.decrypt (w.st.key.getD [])
            (nonceFor w.st.mac WRITE_INFO (splitWrite data).counter)
            (splitWrite data).ct (splitWrite data).mic with
        | none => .refused (err .micMismatch "the write did not authenticate") w.asked
        | some pt => noted env (splitWrite data).counter pt w.asked

/-- The value of a readable entry is to be published again. -/
def deferRead (writable : Writable) (w : World) : World :=
  if writable.readable then w.defer (.publishRead writable) else w

/-- The device once `set()` has returned. -/
def afterSet (writable : Writable) (v : Value) (w : World) : World :=
  deferRead writable (w.asked.noteSet writable.entryIndex v true)

/-- `set()` returns, and what the write sets off does not escape through `onError`; or it throws
something that can be counted. -/
def SetAccounted (env : Env) (writable : Writable) (v : Value) (w : World) : Prop :=
  match env.set w.calls writable.entryIndex v with
  | .ok () => ∀ e u, reaction env (afterSet writable v w) = .error e u → Quiet env u e
  | .error none => False
  | .error (some f) => countedUnder f.error ∉ OBJECT_MEMBERS ∧ Quiet env w.asked f.error

def HandleAccounted (env : Env) (k : ℕ) (pl : Bytes) (w : World) : Prop :=
  match w.st.plan.writable[k - 1]? with
  | none => Quiet env w (err .entryNotDeclared s!"entry {k} is not declared")
  | some writable =>
      match w.st.entries[writable.entryIndex]? with
      | none => Quiet env w typeError
      | some _ =>
          match parseWrite pl writable with
          | .error e => Quiet env w e
          | .ok value => SetAccounted env writable (decodeValue value writable.spec) w

def ArrivalAccounted (env : Env) (k : ℕ) : Arrival → Prop
  | .refused e w => Quiet env w e
  | .thrown _ _ => False
  | .opened pl w => HandleAccounted env k pl w

/-- Neither the cipher nor the flash throws before the write is handled, `set()` throws nothing
falsy and nothing uncountable, and `onError` does not throw. -/
def Accounted (env : Env) (k : ℕ) (data : Bytes) (w : World) : Prop :=
  if w.st.key.isSome then ArrivalAccounted env k (arrival env data w)
  else HandleAccounted env k data w

/-! ## Refusing -/

theorem report_returns_iff {e : JsError} : Returns (report env e) w ↔ Quiet env w e := by
  unfold Returns report Quiet
  simp only [look_bind, id_eq, doIf]
  by_cases hgiven : w.st.onError = true
  · simp only [hgiven, if_true, ask, forall_true_left]
    cases env.throws w.calls (.onError e) <;> simp
  · simp [hgiven]

/-- The module's own codes can all be counted under. -/
theorem own_code_counts {code : ErrCode} (h : ∀ text, code ≠ .foreign text) (message : String) :
    countedUnder (err code message) ∉ OBJECT_MEMBERS := by
  change codeText code ∉ OBJECT_MEMBERS
  cases code with
  | foreign text => exact absurd rfl (h text)
  | _ => decide

theorem tally_countReject {e : JsError} (hcode : countedUnder e ∉ OBJECT_MEMBERS) :
    Counted (tally w) (tally (w.countReject e)) := by
  unfold World.countReject
  rw [if_neg hcode]
  exact ⟨⟨[], by simp [tally], by simp⟩, countedUnder e, rfl⟩

/-- A refusal is counted; whether it stays one depends on `onError`. -/
theorem settles_reject_iff {Decoded : SetCall → Prop} {e : JsError} {t : Tally}
    (hcode : countedUnder e ∉ OBJECT_MEMBERS) (ht : t.2 = w.st.rejects)
    (hsets : ∃ calls : List SetCall,
      w.sets = t.1 ++ calls ∧ ∀ call ∈ calls, call.returned = false) :
    Settles Decoded t (reject env e) w ↔ Quiet env w e := by
  have hquiet : Quiet env (w.countReject e) e ↔ Quiet env w e := by
    unfold World.countReject
    rw [if_neg hcode]
    rfl
  rw [← hquiet, ← report_returns_iff]
  constructor
  · rintro ⟨w', hrun, -⟩
    exact ⟨(), w', hrun⟩
  · rintro ⟨_, w', hrun⟩
    refine ⟨w', hrun, Or.inr ?_⟩
    have hkept : tally w' = tally (w.countReject e) :=
      (keeps_report (f := tally) (fun _ => rfl) e).ok hrun
    obtain ⟨-, code, hcount⟩ := tally_countReject (w := w) hcode
    rw [hkept]
    refine ⟨?_, code, ?_⟩
    · have : (w.countReject e).sets = w.sets := by
        unfold World.countReject
        rw [if_neg hcode]
      rw [tally, this]
      exact hsets
    · rw [ht]
      exact hcount

/-- Where `set()` was called and did not return, only a count settles the write. -/
theorem not_settles_of_tally {Decoded : SetCall → Prop} {t : Tally} {p : Fw Unit} (call₀ : SetCall)
    (hthrew : call₀.returned = false) (hdecoded : ∀ call, Decoded call → call.returned = true)
    (hp : ∀ w', p w = .ok () w' → tally w' = (t.1 ++ [call₀], t.2)) : ¬ Settles Decoded t p w := by
  rintro ⟨w', hrun, ⟨call, hcall, happlied⟩ | ⟨-, code, hcount⟩⟩
  · rw [Applied, hp w' hrun] at happlied
    have hsame : call₀ = call := by simpa using congrArg Prod.fst happlied
    rw [hsame, hdecoded call hcall] at hthrew
    cases hthrew
  · rw [hp w' hrun] at hcount
    have hbump := congrFun hcount code
    simp at hbump

/-! ## The reaction to an accepted write -/

theorem tally_tickKeeps : TickKeeps tally where

theorem tally_rateKeeps : RateKeeps tally where

theorem guarded_returns_iff {p : Fw Unit} :
    Returns (guarded env p) w ↔ ∀ e u, p w = .error e u → Quiet env u e := by
  unfold guarded
  cases hp : p w with
  | ok a w' =>
      have hrun : attempt p (report env) w = .ok a w' := attempt_of_ok hp
      exact ⟨fun _ e u h => (by cases h), fun _ => ⟨a, w', hrun⟩⟩
  | error e u =>
      have hrun : attempt p (report env) w = report env e u := attempt_of_error hp
      rw [Returns, hrun]
      exact Iff.trans report_returns_iff
        ⟨fun h e' u' h' => (by cases h'; exact h), fun h => h e u rfl⟩

theorem tally_guarded_reaction {w' : World} (h : guarded env (reaction env) w = .ok () w') :
    tally w' = tally w :=
  (keeps_guarded (fun _ => rfl) (keeps_reaction tally_tickKeeps tally_rateKeeps)).ok h

/-! ## Handling -/

theorem doIf_defer (writable : Writable) (w : World) :
    (doIf writable.readable (update (World.defer · (.publishRead writable))) : Fw Unit) w =
      .ok () (deferRead writable w) := by
  unfold doIf deferRead
  split <;> rfl

theorem tally_deferRead (writable : Writable) (w : World) :
    tally (deferRead writable w) = tally w := by
  unfold deferRead
  split <;> rfl

theorem quiet_deferRead {writable : Writable} {e : JsError} :
    Quiet env (deferRead writable w) e ↔ Quiet env w e := by
  unfold deferRead
  split <;> rfl

theorem countedUnder_parseWrite {pl : Bytes} {writable : Writable} {e : JsError}
    (h : parseWrite pl writable = .error e) : countedUnder e ∉ OBJECT_MEMBERS := by
  unfold parseWrite at h
  cases pl with
  | nil =>
      obtain rfl := Except.error.inj h
      exact own_code_counts (by simp) _
  | cons id value =>
      simp only at h
      split at h
      · obtain rfl := Except.error.inj h
        exact own_code_counts (by simp) _
      split at h
      · obtain rfl := Except.error.inj h
        exact own_code_counts (by simp) _
      split at h
      · obtain rfl := Except.error.inj h
        exact own_code_counts (by simp) _
      split at h
      · obtain rfl := Except.error.inj h
        exact own_code_counts (by simp) _
      · cases h

/-- What `handleWrite` does once it knows how the write fared. -/
theorem handleWrite_of_applied {k : ℕ} {pl : Bytes} {writable : Writable} {u : World}
    {refused : Option JsError} (hentry : w.st.plan.writable[k - 1]? = some writable)
    (happly : applyWrite env writable pl w = .ok refused u) :
    handleWrite env k pl w =
      refused.elim (guarded env (reaction env)) (reject env) (deferRead writable u) := by
  unfold handleWrite
  simp only [look_bind, id_eq, hentry]
  rw [bind_of_ok happly, bind_of_ok (doIf_defer writable u)]
  cases refused <;> rfl

theorem settles_congr {Decoded : SetCall → Prop} {t : Tally} {p q : Fw Unit} {u : World}
    (h : p w = q u) : Settles Decoded t p w ↔ Settles Decoded t q u := by
  unfold Settles
  rw [h]

/-- Refused before `set()` is called. -/
theorem settles_refused_iff {Decoded : SetCall → Prop} {k : ℕ} {pl : Bytes}
    {writable : Writable} {e : JsError} (hentry : w.st.plan.writable[k - 1]? = some writable)
    (happly : applyWrite env writable pl w = .ok (some e) w)
    (hcode : countedUnder e ∉ OBJECT_MEMBERS) :
    Settles Decoded (tally w) (handleWrite env k pl) w ↔ Quiet env w e := by
  have hkept := tally_deferRead writable w
  rw [settles_congr (handleWrite_of_applied hentry happly), Option.elim_some,
    settles_reject_iff hcode (congrArg Prod.snd hkept).symm
      ⟨[], by simpa [tally] using congrArg Prod.fst hkept, by simp⟩, quiet_deferRead]

theorem settles_set_iff {k : ℕ} {pl value : Bytes} {writable : Writable}
    (hentry : w.st.plan.writable[k - 1]? = some writable)
    (hvalue : parseWrite pl writable = .ok value)
    (happly : applyWrite env writable pl w =
      callSet env writable.entryIndex (decodeValue value writable.spec) w) :
    Settles (AsksFor w.st k pl) (tally w) (handleWrite env k pl) w ↔
      SetAccounted env writable (decodeValue value writable.spec) w := by
  have hdecoded : ∀ call, AsksFor w.st k pl call → call.returned = true := by
    rintro call ⟨_, _, -, -, rfl⟩
    rfl
  unfold SetAccounted
  unfold callSet at happly
  cases hset : env.set w.calls writable.entryIndex (decodeValue value writable.spec) with
  | ok _ =>
      simp only [hset] at happly
      rw [settles_congr (handleWrite_of_applied hentry happly), Option.elim_none]
      have hkept : ∀ {w'}, guarded env (reaction env)
          (afterSet writable (decodeValue value writable.spec) w) = .ok () w' →
          Applied ⟨writable.entryIndex, decodeValue value writable.spec, true⟩ (tally w)
            (tally w') := by
        intro w' hrun
        rw [tally_guarded_reaction hrun, afterSet, tally_deferRead]
        rfl
      simp only
      rw [← guarded_returns_iff]
      constructor
      · rintro ⟨w', hrun, -⟩
        exact ⟨(), w', hrun⟩
      · rintro ⟨_, w', hrun⟩
        exact ⟨w', hrun, Or.inl ⟨_, ⟨writable, value, hentry, hvalue, rfl⟩, hkept hrun⟩⟩
  | error thrown =>
      simp only [hset] at happly
      rw [settles_congr (handleWrite_of_applied hentry happly)]
      let call₀ : SetCall := ⟨writable.entryIndex, decodeValue value writable.spec, false⟩
      have hkept := tally_deferRead writable
        (w.asked.noteSet writable.entryIndex (decodeValue value writable.spec) false)
      cases thrown with
      | none =>
          -- falsy: the write counts as accepted, and nothing says it was not
          refine iff_of_false (not_settles_of_tally call₀ rfl hdecoded fun w' hrun => ?_) id
          rw [tally_guarded_reaction hrun, hkept]
          rfl
      | some f =>
          by_cases hcode : countedUnder f.error ∈ OBJECT_MEMBERS
          · refine iff_of_false (not_settles_of_tally call₀ rfl hdecoded fun w' hrun => ?_)
              (fun h => h.1 hcode)
            have hreject := (keeps_reject (f := tally) (fun _ => rfl) fun u => by
              unfold World.countReject
              rw [if_pos hcode]).ok hrun
            rw [hreject, hkept]
            rfl
          · have hrejects : (tally w).2 = (deferRead writable
                (w.asked.noteSet call₀.entryIndex call₀.value false)).st.rejects :=
              (congrArg Prod.snd hkept).symm
            have hsets : ∃ calls : List SetCall, (deferRead writable
                (w.asked.noteSet call₀.entryIndex call₀.value false)).sets =
                (tally w).1 ++ calls ∧ ∀ call ∈ calls, call.returned = false :=
              ⟨[call₀], congrArg Prod.fst hkept, by simp [call₀]⟩
            simp only [hcode, not_false_eq_true, true_and]
            exact (settles_reject_iff hcode hrejects hsets).trans quiet_deferRead

theorem settles_handleWrite_iff (k : ℕ) (pl : Bytes) (w : World) :
    Settles (AsksFor w.st k pl) (tally w) (handleWrite env k pl) w ↔
      HandleAccounted env k pl w := by
  unfold HandleAccounted
  cases hentry : w.st.plan.writable[k - 1]? with
  | none =>
      have hrun : handleWrite env k pl w =
          reject env (err .entryNotDeclared s!"entry {k} is not declared") w := by
        unfold handleWrite
        simp only [look_bind, id_eq, hentry]
      rw [settles_congr hrun]
      exact settles_reject_iff (own_code_counts (by simp) _) rfl ⟨[], by simp [tally], by simp⟩
  | some writable =>
      simp only
      cases hset : w.st.entries[writable.entryIndex]? with
      | none =>
          refine settles_refused_iff hentry ?_ (by decide)
          simp only [applyWrite, look_bind, id_eq, hset, pure_apply]
      | some e =>
          simp only
          cases hvalue : parseWrite pl writable with
          | error x =>
              refine settles_refused_iff hentry ?_ (countedUnder_parseWrite hvalue)
              simp only [applyWrite, look_bind, id_eq, hset, hvalue, pure_apply]
          | ok value =>
              refine settles_set_iff hentry hvalue ?_
              simp only [applyWrite, look_bind, id_eq, hset, hvalue]

/-! ## Arriving -/

/-- What `openWrite` comes to, by where it takes the write. -/
def Arrival.outcome (env : Env) : Arrival → EStateM.Result JsError World (Option Bytes)
  | .refused e w => (do reject env e; pure none : Fw (Option Bytes)) w
  | .thrown e w => .error e w
  | .opened pl w => .ok (some pl) w

theorem noteWriteCounter_eq (counter : ℕ) (pt : Bytes) (w : World) :
    (do noteWriteCounter env counter; pure (some pt) : Fw (Option Bytes)) w =
      (noted env counter pt w).outcome env := by
  unfold noteWriteCounter noted
  by_cases hreached : counter ≥ w.st.writeMark
  · cases hsave : env.throws w.calls .writeMarks with
    | some f =>
        rw [if_pos hreached]
        refine bind_of_error ?_
        simp only [look_bind, update_bind, id_eq, doIf, if_pos hreached, saveMarks]
        exact bind_of_error (ask_of_some hsave)
    | none =>
        rw [if_pos hreached]
        refine (bind_of_ok (a := ()) ?_).trans rfl
        simp only [look_bind, update_bind, id_eq, doIf, if_pos hreached, saveMarks]
        exact bind_of_ok (ask_of_none hsave)
  · rw [if_neg hreached]
    refine (bind_of_ok (a := ()) ?_).trans rfl
    simp only [look_bind, update_bind, id_eq, doIf, if_neg hreached]
    rfl

theorem openWrite_eq (data : Bytes) (w : World) :
    openWrite env data w = (arrival env data w).outcome env := by
  unfold openWrite arrival
  simp only [look_bind, id_eq]
  by_cases hshort : data.length ≤ ENC_OVERHEAD
  · rw [if_pos hshort, if_pos hshort]
    rfl
  rw [if_neg hshort, if_neg hshort]
  by_cases hahead : counterIsAhead (splitWrite data).counter w.st.writeCounter
  swap
  · simp only [hahead, Bool.not_false, if_true]
    rfl
  simp only [hahead, Bool.not_true, Bool.false_eq_true, if_false]
  cases hcipher : env.throws w.calls .decrypt with
  | some f =>
      exact bind_of_error (ask_of_some hcipher)
  | none =>
      rw [bind_of_ok (ask_of_none hcipher)]
      cases env.ccm.decrypt (w.st.key.getD []) (nonceFor w.st.mac WRITE_INFO
          (splitWrite data).counter) (splitWrite data).ct (splitWrite data).mic with
      | none => rfl
      | some pt => exact noteWriteCounter_eq (splitWrite data).counter pt w.asked

/-- What opening a write does not touch. -/
structure AtTheDoor (w u : World) : Prop where
  tally : tally u = tally w
  plan : u.st.plan = w.st.plan
  deferred : u.deferred = w.deferred

theorem noted_cases (env : Env) (counter : ℕ) (pt : Bytes) (w : World) :
    ∃ u, AtTheDoor w u ∧
      ((∃ e, noted env counter pt w = .thrown e u) ∨ noted env counter pt w = .opened pt u) := by
  unfold noted
  split
  · split
    · refine ⟨_, ?_, Or.inl ⟨_, rfl⟩⟩
      exact ⟨rfl, rfl, rfl⟩
    · refine ⟨_, ?_, Or.inr rfl⟩
      exact ⟨rfl, rfl, rfl⟩
  · refine ⟨_, ?_, Or.inr rfl⟩
    exact ⟨rfl, rfl, rfl⟩

/-- Nothing is counted, set or deferred on the way to where the write arrives. -/
theorem arrival_cases (env : Env) (data : Bytes) (w : World) :
    ∃ u, AtTheDoor w u ∧
      ((∃ e, arrival env data w = .refused e u ∧ countedUnder e ∉ OBJECT_MEMBERS) ∨
      (∃ e, arrival env data w = .thrown e u) ∨
      ∃ pl, arrival env data w = .opened pl u ∧
        env.ccm.decrypt (w.st.key.getD [])
          (nonceFor w.st.mac WRITE_INFO (splitWrite data).counter)
          (splitWrite data).ct (splitWrite data).mic = some pl) := by
  unfold arrival
  split
  · exact ⟨w, ⟨rfl, rfl, rfl⟩, Or.inl ⟨_, rfl, own_code_counts (by simp) _⟩⟩
  split
  · exact ⟨w, ⟨rfl, rfl, rfl⟩, Or.inl ⟨_, rfl, own_code_counts (by simp) _⟩⟩
  split
  · exact ⟨w.asked, ⟨rfl, rfl, rfl⟩, Or.inr (Or.inl ⟨_, rfl⟩)⟩
  split
  · exact ⟨w.asked, ⟨rfl, rfl, rfl⟩, Or.inl ⟨_, rfl, own_code_counts (by simp) _⟩⟩
  · rename_i pt hopen
    obtain ⟨u, hdoor, hnoted⟩ := noted_cases env (splitWrite data).counter pt w.asked
    refine ⟨u, ⟨hdoor.tally, hdoor.plan, hdoor.deferred⟩, Or.inr ?_⟩
    rcases hnoted with ⟨e, hthrown⟩ | hopened
    · exact Or.inl ⟨e, hthrown⟩
    · exact Or.inr ⟨pt, hopened, hopen⟩

/-! ## What `onWrite` does, by where the write arrives -/

theorem onWrite_of_plain {k : ℕ} {data : Bytes} (hkey : ¬ w.st.key.isSome = true) :
    onWrite env k data w = handleWrite env k data w := by
  simp only [onWrite, look_bind, id_eq, hkey, Bool.false_eq_true, if_false]

section

variable {k : ℕ} {data pl : Bytes} {e : JsError} {u : World} (hkey : w.st.key.isSome = true)

include hkey

theorem onWrite_of_refused (harrival : arrival env data w = .refused e u) :
    onWrite env k data w = reject env e u := by
  simp only [onWrite, look_bind, id_eq, hkey, if_true]
  rw [bind_apply, openWrite_eq, harrival, Arrival.outcome, bind_apply]
  cases reject env e u <;> rfl

theorem onWrite_of_thrown (harrival : arrival env data w = .thrown e u) :
    onWrite env k data w = .error e u := by
  simp only [onWrite, look_bind, id_eq, hkey, if_true]
  exact bind_of_error ((openWrite_eq data w).trans (by rw [harrival]; rfl))

theorem onWrite_of_opened (harrival : arrival env data w = .opened pl u) :
    onWrite env k data w = handleWrite env k pl u := by
  simp only [onWrite, look_bind, id_eq, hkey, if_true]
  have hopened : openWrite env data w = .ok (some pl) u :=
    (openWrite_eq data w).trans (by rw [harrival]; rfl)
  rw [bind_of_ok hopened]

end

/-- A write is applied once or counted once, with nothing thrown into the callback, exactly when
it is accounted for. -/
theorem write_traced_iff (env : Env) (k : ℕ) (data : Bytes) (w : World) :
    Traced env k data w ↔ Accounted env k data w := by
  unfold Traced Accounted plaintext
  by_cases hkey : w.st.key.isSome = true
  swap
  · simp only [if_neg hkey, Option.some.injEq, exists_eq_left']
    exact (settles_congr (onWrite_of_plain hkey)).trans (settles_handleWrite_iff k data w)
  simp only [if_pos hkey]
  obtain ⟨u, hdoor, ⟨e, harrival, hcode⟩ | ⟨e, harrival⟩ | ⟨pl, harrival, hopen⟩⟩ :=
    arrival_cases env data w
  · -- refused: nothing but the count
    rw [harrival, settles_congr (onWrite_of_refused hkey harrival)]
    exact settles_reject_iff hcode (congrArg Prod.snd hdoor.tally).symm
      ⟨[], by simpa [tally] using congrArg Prod.fst hdoor.tally, by simp⟩
  · -- the exception leaves the callback
    rw [harrival]
    refine iff_of_false ?_ id
    rintro ⟨w', hreturned, -⟩
    rw [onWrite_of_thrown hkey harrival] at hreturned
    cases hreturned
  · rw [harrival, settles_congr (onWrite_of_opened hkey harrival), ← hdoor.tally, hopen]
    simp only [Option.some.injEq, exists_eq_left', AsksFor, ← hdoor.plan]
    exact settles_handleWrite_iff k pl u

/-- The cipher finds no memory for a write. -/
def cipherFails : Env :=
  { sampleEnv with
    throws := fun _ call =>
      if call = .decrypt then some ⟨none, "AES returned nothing: no contiguous memory"⟩
      else none }

/-- A device with a key, after `setup()`. -/
def keyedBoard : Board := left (setup cipherFails sampleKeyed) (Board.powerOn none)

def keyedSt : St := keyedBoard.st.get (by decide)

/-- The light switched on under counter 1. -/
def sampleWrite : Bytes := [0x0F, 0x01] ++ counterBytes 1 ++ [0, 0, 0, 0]

set_option maxRecDepth 4000 in
/-- The exception leaves the callback; nothing is set, and nothing counted. -/
theorem write_lost_when_cipher_throws :
    setup cipherFails sampleKeyed (Board.powerOn none) = .ok () keyedBoard ∧
      keyedBoard.st = some keyedSt ∧
      ¬ Traced cipherFails 1 sampleWrite (keyedBoard.world keyedSt) := by
  refine ⟨rfl, (Option.some_get _).symm, ?_⟩
  rintro ⟨w', hrun, -⟩
  have hthrown : ∃ e u, onWrite cipherFails 1 sampleWrite (keyedBoard.world keyedSt) =
      .error e u := ⟨_, _, rfl⟩
  obtain ⟨e, u, hthrown⟩ := hthrown
  rw [hthrown] at hrun
  cases hrun

end BTHomeWritable.Firmware
