import BTHomeWritable.Agreement.Broadcasts
import BTHomeWritable.Agreement.Objects
import BTHomeWritable.Firmware.Serving
import BTHomeWritable.Receiver.Sourcing

/-!
# The values a receiver holds of a device

A device from a `setup()` on, and a receiver of it: what happens to the one and
what the other does, in any order.  The two meet where the receiver looks at a
characteristic, which answers with what the device holds there.  What the
receiver holds for an entry is then a reading of that entry, a value it was told
to write there, or what some central has written there.

* `Scene` is the two together and `Occurrence` what may happen to either.  `Looks`
  asks of the receiver's looks that they are `Truthful`.
* `ComesFrom` is where a value may come from; what has been done stays done
  (`ComesFrom.mono`).
* `value_of_reading` is the meeting: a characteristic that holds a reading, sealed
  or not, shows the value of that reading.
* `Together` carries `Serving` of the device and `Sourced` of the receiver through a
  run, with one lemma for each side.

`values_come_from_device` is the run.  `reads_understood` is about the device alone:
whoever reads a characteristic finds what a `get()` has returned since the setup,
unless a central has written there.
-/

namespace BTHomeWritable.Agreement

open Device hiding World St Event SetupOpts setup
open Firmware Receiver

variable {env : Env} {table : ObjectTable} {describe : UInt8 → Option String} {st : St}

/-! ## The two together -/

inductive Occurrence where
  | device (event : Event)
  | receiver (act : CacheAct)

structure Scene where
  world : World
  cache : Cache

/-- A receiver that knows the device and has its key. -/
def openingOf (env : Env) (table : ObjectTable) (describe : UInt8 → Option String) (st : St) :
    Opening where
  table := table
  describe := describe
  aead := env.ccm
  address := addressOf env
  bindkey := st.key

/-- The bytes that a read of a characteristic returns. -/
def heldBytes : Firmware.Held → Bytes
  | .unset => []
  | .served _ bytes => bytes
  | .written bytes => bytes

/-- Only a readable characteristic answers, and with what it holds. -/
def Truthful (w : World) (k : ℕ) (look : Look) : Prop :=
  ∀ writable ∈ w.st.plan.writable, writable.entry = k → ∀ raw, look = .answer raw →
    writable.readable = true ∧ raw = heldBytes (w.held k)

namespace Scene

def step (env : Env) (opening : Opening) (s : Scene) : Occurrence → Scene
  | .device event => { s with world := react env s.world event }
  | .receiver act => { s with cache := s.cache.step opening act }

/-- Whoever looks at a characteristic of the device sees what it holds. -/
def Looks (s : Scene) : Occurrence → Prop
  | .receiver (.read i look) => ∀ c attempt e rest failed,
      s.cache.readers[i]? = some (.reading c attempt (e :: rest) failed) →
      Truthful s.world e.entry look
  | .receiver (.carry i look) => ∀ c was e rest failed,
      s.cache.writers[i]? = some (.folding c was (e :: rest) failed) →
      Truthful s.world e.entry look
  | .receiver (.confirm i look _) => ∀ o layouts,
      s.cache.writers[i]? = some (.acknowledged o layouts) → Truthful s.world o.entry.entry look
  | _ => True

end Scene

/-- Where a value held for the entry of `writable` comes from: a `get()` among the calls from
`since` up to `calls`, a command the receiver was given for it, or bytes that a central wrote. -/
inductive ComesFrom (env : Env) (opening : Opening) (since calls : ℕ) (history : List Occurrence)
    (writable : Writable) (v : Bytes) : Prop
  | reading (n : ℕ) (o : Obj) (hfrom : since ≤ n) (hto : n < calls)
      (hreadable : writable.readable = true)
      (hread : env.reading n writable.entryIndex = .ok o) (hvalue : v = o.value)
  | commanded (coalesce : Bool) (hmem : .receiver (.command writable.entry v coalesce) ∈ history)
  | written (objectId : UInt8) (data : Bytes) (hreadable : writable.readable = true)
      (hmem : .device (.write writable.entry data) ∈ history)
      (hopen : opening.openRead ⟨writable.entry, objectId⟩ data = .ok (some v))

variable {opening : Opening} {since calls : ℕ} {history : List Occurrence} {writable : Writable}
  {v : Bytes}

theorem ComesFrom.mono (h : ComesFrom env opening since calls history writable v) {calls' : ℕ}
    (hlater : calls ≤ calls') : ComesFrom env opening since calls' history writable v := by
  cases h with
  | reading n o hfrom hto hreadable hread hvalue =>
      exact .reading n o hfrom (hto.trans_le hlater) hreadable hread hvalue
  | commanded coalesce hmem => exact .commanded coalesce hmem
  | written objectId data hreadable hmem hopen =>
      exact .written objectId data hreadable hmem hopen

/-! ## Looking at a reading -/

theorem decodeObject_ok {entry : WritableEntry} {payload value : Bytes}
    (h : decodeObject table entry payload = .ok value) :
    payload = entry.objectId :: value := by
  cases payload with
  | nil => cases h
  | cons objectId rest =>
      unfold decodeObject at h
      by_cases hid : objectId = entry.objectId
      · subst hid
        simp only [ne_eq, not_true_eq_false, if_false] at h
        split at h
        · cases h
        · split at h
          · cases h
          · split at h
            · cases h
            · rw [Except.ok.inj h]
      · simp [hid] at h

/-- A sealed reading opens. -/
theorem openRead_sealedWith {aead : Aead} (hcorrect : aead.Correct 4) (key mac : Bytes)
    {obj : Bytes} (hobj : obj ≠ []) (counter : ℕ) :
    Receiver.openRead aead (sealedWith aead key mac obj READ_INFO counter) key
      (Hex.joined .upper ':' mac) = .ok (some obj) := by
  have hwrapped : sealedWith aead key mac obj READ_INFO counter =
      sealedWith aead key mac obj READ_INFO (counter % 4294967296) := by
    simp only [sealedWith, nonceFor, counterBytes_mod]
  rw [hwrapped]
  exact openUnder_sealedWith hcorrect hobj (Nat.mod_lt _ (by norm_num))

/-- What `_open_read` makes of the object it has decoded or not. -/
def usable : Except ReadError Bytes → Except ReadError (Option Bytes)
  | .error (.other (.protocolError _)) => .ok none
  | .error e => .error e
  | .ok value => .ok (some value)

theorem usable_eq_some_iff {decoded : Except ReadError Bytes} :
    usable decoded = .ok (some v) ↔ decoded = .ok v := by
  constructor
  · intro h
    unfold usable at h
    split at h
    · cases h
    · cases h
    · rw [Option.some.inj (Except.ok.inj h)]
  · rintro rfl
    rfl

variable (table describe) in
/-- A reading is opened to the object it was made of. -/
theorem openRead_of_reading (hcorrect : env.ccm.Correct 4)
    (hown : st.key.isSome = true → st.mac = Device.macBytes env.address) {n : ℕ} {bytes : Bytes}
    (hreading : Reading env st n writable bytes) (entry : WritableEntry) :
    ∃ e o, st.entries[writable.entryIndex]? = some e ∧
      env.reading n writable.entryIndex = .ok o ∧
      (openingOf env table describe st).openRead entry bytes =
        usable (decodeObject table entry
          ((if e.id.isSome then writable.spec.id else o.id) :: o.value)) := by
  obtain ⟨e, o, hentry, hread, hbytes⟩ := hreading
  refine ⟨e, o, hentry, hread, ?_⟩
  cases hkey : st.key with
  | none =>
      simp only [hkey] at hbytes
      simp only [hbytes, Opening.openRead, openingOf, hkey]
      rfl
  | some key =>
      simp only [hkey] at hbytes
      obtain ⟨counter, rfl⟩ := hbytes
      have hmac : st.mac = Device.macBytes env.address := hown (by rw [hkey]; rfl)
      have hunsealed := openRead_sealedWith hcorrect key st.mac
        (List.cons_ne_nil (if e.id.isSome then writable.spec.id else o.id) o.value) counter
      rw [hmac] at hunsealed ⊢
      simp only [Opening.openRead, openingOf, hkey, addressOf, hunsealed]
      rfl

/-- What comes out of a reading is what `get()` returned. -/
theorem value_of_reading (hcorrect : env.ccm.Correct 4)
    (hown : st.key.isSome = true → st.mac = Device.macBytes env.address) {n : ℕ} {bytes : Bytes}
    (hreading : Reading env st n writable bytes) {entry : WritableEntry}
    (hopen : (openingOf env table describe st).openRead entry bytes = .ok (some v)) :
    ∃ o, env.reading n writable.entryIndex = .ok o ∧ v = o.value := by
  obtain ⟨e, o, -, hread, hopened⟩ :=
    openRead_of_reading table describe hcorrect hown hreading entry
  rw [hopened, usable_eq_some_iff] at hopen
  exact ⟨o, hread, (List.cons.inj (decodeObject_ok hopen)).2.symm⟩

/-- The `get()` of a readable entry returns what its spec says. -/
def ReadsBack (env : Env) (st : St) : Prop :=
  ∀ writable ∈ st.plan.writable, writable.readable = true →
    ∀ n e o, st.entries[writable.entryIndex]? = some e →
      env.reading n writable.entryIndex = .ok o →
      (e.id = none → o.id = writable.spec.id) ∧ WellFormed writable o.value

variable (describe) in
theorem readable_of_reading (hcorrect : env.ccm.Correct 4)
    (hown : st.key.isSome = true → st.mac = Device.macBytes env.address)
    (hmatches : Matches table writable ⟨writable.entry, writable.spec.id⟩)
    (hreads : ReadsBack env st) (hmem : writable ∈ st.plan.writable)
    (hreadable : writable.readable = true) {n : ℕ} {bytes : Bytes}
    (hreading : Reading env st n writable bytes) :
    ∃ o, env.reading n writable.entryIndex = .ok o ∧
      (openingOf env table describe st).openRead ⟨writable.entry, writable.spec.id⟩ bytes =
        .ok (some o.value) := by
  obtain ⟨e, o, hentry, hread, hopened⟩ := openRead_of_reading table describe hcorrect hown hreading
    ⟨writable.entry, writable.spec.id⟩
  obtain ⟨hid, hformed⟩ := hreads writable hmem hreadable n e o hentry hread
  refine ⟨o, hread, ?_⟩
  rw [hopened, usable_eq_some_iff, decodeObject_ok_iff hmatches]
  refine ⟨?_, hformed⟩
  cases hdeclared : e.id with
  | none => rw [Option.isSome_none, if_neg Bool.false_ne_true, hid hdeclared, encodeObject]
  | some id => rw [Option.isSome_some, if_pos rfl, encodeObject]

/-! ## Every order of steps -/

/-- What carries the values through a run of the two. -/
structure Together (env : Env) (table : ObjectTable) (describe : UInt8 → Option String)
    (st : St) (since : ℕ) (history : List Occurrence) (s : Scene) : Prop where
  serving : Serving env (fun k data => .device (.write k data) ∈ history) since s.world.calls
    s.world
  source : source s.world = (st.entries, st.key, st.mac)
  writable : s.world.st.plan.writable = st.plan.writable
  sourced : Cache.Sourced (fun k v => ∀ writable ∈ st.plan.writable, writable.entry = k →
    ComesFrom env (openingOf env table describe st) since s.world.calls history writable v) s.cache

theorem Together.device {s : Scene} (h : Together env table describe st since history s)
    {event : Event} (hmem : .device event ∈ history) :
    Together env table describe st since history
      (s.step env (openingOf env table describe st) (.device event)) := by
  have hreacted : Serving env (fun k data => .device (.write k data) ∈ history) since
      s.world.calls (react env s.world event) := by
    refine h.serving.react ?_
    rintro k data rfl
    exact hmem
  refine ⟨hreacted.mark, ?_, ?_, ?_⟩
  · exact (source_eventKeeps.react s.world event).trans h.source
  · exact (writable_eventKeeps.react s.world event).trans h.writable
  · refine ⟨fun k v hv writable hwritable hk => ?_, fun w hw o ho => ?_, h.sourced.numbered⟩
    · exact (h.sourced.values k v hv writable hwritable hk).mono hreacted.later
    · obtain ⟨hcommanded, hentry⟩ := h.sourced.orders w hw o ho
      exact ⟨fun writable hwritable hk => (hcommanded writable hwritable hk).mono hreacted.later,
        hentry⟩

/-- A value that is seen at a characteristic is a reading, or what a central wrote. -/
theorem Together.seen {s : Scene} (h : Together env table describe st since history s)
    (hcorrect : env.ccm.Correct 4)
    (hown : st.key.isSome = true → st.mac = Device.macBytes env.address) {e : WritableEntry}
    {look : Look} (htrue : Truthful s.world e.entry look)
    (hshows : Cache.Shows (openingOf env table describe st) e look v) :
    ∀ writable ∈ st.plan.writable, writable.entry = e.entry →
      ComesFrom env (openingOf env table describe st) since s.world.calls history writable v := by
  intro writable hmem hentry
  obtain ⟨raw, rfl, hopen⟩ := hshows
  rw [← h.writable] at hmem
  obtain ⟨hreadable, hraw⟩ := htrue writable hmem hentry raw rfl
  rw [← hentry] at hraw
  have hsource : s.world.st.entries = st.entries ∧ s.world.st.key = st.key ∧
      s.world.st.mac = st.mac := by
    simpa [Firmware.source] using h.source
  obtain ⟨hentries, hkey, hmac⟩ := hsource
  cases h.serving.stands writable hmem hreadable with
  | read n bytes hfrom hto hheld hreading =>
      rw [hheld, show heldBytes (.served writable bytes) = bytes from rfl] at hraw
      subst hraw
      have hreading' : Reading env st n writable raw := by
        unfold Reading at hreading ⊢
        rwa [hentries, hkey, hmac] at hreading
      obtain ⟨o, hread, hvalue⟩ := value_of_reading hcorrect hown hreading' hopen
      exact .reading n o hfrom hto hreadable hread hvalue
  | written data hheld hwrote =>
      rw [hheld, show heldBytes (.written data) = data from rfl] at hraw
      subst hraw
      refine .written e.objectId raw hreadable hwrote ?_
      rw [hentry]
      exact hopen

theorem Together.receiver {s : Scene} (h : Together env table describe st since history s)
    (hcorrect : env.ccm.Correct 4)
    (hown : st.key.isSome = true → st.mac = Device.macBytes env.address) {act : CacheAct}
    (hmem : .receiver act ∈ history) (hlooks : s.Looks (.receiver act)) :
    Together env table describe st since history
      (s.step env (openingOf env table describe st) (.receiver act)) := by
  refine ⟨h.serving, h.source, h.writable, h.sourced.step ?_⟩
  cases act with
  | command number value coalesce =>
      rintro writable - rfl
      exact .commanded coalesce hmem
  | read i look =>
      intro c attempt e rest failed hr v hshows
      exact h.seen hcorrect hown (hlooks c attempt e rest failed hr) hshows
  | carry i look =>
      intro c was e rest failed hw v hshows
      exact h.seen hcorrect hown (hlooks c was e rest failed hw) hshows
  | confirm i look raises =>
      intro o layouts hw v hshows
      exact h.seen hcorrect hown (hlooks o layouts hw) hshows
  | _ => trivial

/-- Whatever happens to a device from such a `setup()` on, a read of a readable entry finds what
`get()` has returned in one of the calls since then, under the id the entry is declared with, unless
it finds what a central has written there. -/
theorem reads_understood (env : Env) (table : ObjectTable) (describe : UInt8 → Option String)
    (opts : SetupOpts) (b b' : Board) (st : St) (events : List Event)
    (hcorrect : env.ccm.Correct 4)
    (hsetup : setup env opts b = .ok () b' ∨
      ∃ e, setup env opts b = .error e b' ∧ e.code = some .advertisingRejected)
    (hidle : ∀ writable, .publishRead writable ∉ b.deferred) (hst : b'.st = some st)
    (hmatches : ∀ writable ∈ st.plan.writable,
      Matches table writable ⟨writable.entry, writable.spec.id⟩)
    (hreads : ReadsBack env st) :
    let w := Runs.run (react env) (b'.world st) events
    ∀ writable ∈ st.plan.writable, writable.readable = true →
      (∃ data, w.held writable.entry = .written data ∧ .write writable.entry data ∈ events) ∨
        ∃ n o, b.calls ≤ n ∧ n < w.calls ∧ env.reading n writable.entryIndex = .ok o ∧
          (openingOf env table describe st).openRead ⟨writable.entry, writable.spec.id⟩
            (heldBytes (w.held writable.entry)) = .ok (some o.value) := by
  intro w writable hmem hreadable
  have hstep : ∀ (u : World) (event : Event),
      (Serving env (fun k data => .write k data ∈ events) b.calls b.calls u ∧
        source u = source (b'.world st) ∧ u.st.plan.writable = st.plan.writable) →
      event ∈ events →
      Serving env (fun k data => .write k data ∈ events) b.calls b.calls (react env u event) ∧
        source (react env u event) = source (b'.world st) ∧
        (react env u event).st.plan.writable = st.plan.writable := by
    rintro u event ⟨hu, hsource, hwritable⟩ hevent
    refine ⟨hu.react ?_, (source_eventKeeps.react u event).trans hsource,
      (writable_eventKeeps.react u event).trans hwritable⟩
    rintro k data rfl
    exact hevent
  obtain ⟨hserving, hsource, hwritable⟩ := Runs.run_invariant hstep
    ⟨serving_setup hsetup hidle hst, rfl, rfl⟩ (Runs.Along.of_forall fun _ hevent => hevent)
  cases hserving.stands writable (hwritable ▸ hmem) hreadable with
  | written data hheld hwrote => exact .inl ⟨data, hheld, hwrote⟩
  | read n bytes hfrom hto hheld hreading =>
      right
      obtain ⟨o, hread, hopened⟩ := readable_of_reading describe hcorrect
        (own_setup hsetup hst) (hmatches writable hmem) hreads hmem hreadable
        (hreading.congr hsource)
      rw [hheld]
      exact ⟨n, o, hfrom, hto, hread, hopened⟩

theorem planned_sealedSt : sealedSt.plan.writable = [plannedLight] := by decide

set_option maxRecDepth 4000 in
/-- The light of the device with a key, before and after a change of it. -/
theorem reads_understood_sample :
    let w := Runs.run (react sampleEnv) (sealedBoard.world sealedSt) [.changed, .fire 2]
    ∀ writable ∈ sealedSt.plan.writable, writable.readable = true →
      (∃ data, w.held writable.entry = .written data ∧
        .write writable.entry data ∈ [Event.changed, .fire 2]) ∨
        ∃ n o, 0 ≤ n ∧ n < w.calls ∧ sampleEnv.reading n writable.entryIndex = .ok o ∧
          (openingOf sampleEnv (fun _ => some ("unsigned_integer", 1)) (fun _ => some "binary")
            sealedSt).openRead ⟨writable.entry, writable.spec.id⟩
              (heldBytes (w.held writable.entry)) = .ok (some o.value) := by
  refine reads_understood sampleEnv _ _ sampleKeyed (Board.powerOn none) sealedBoard sealedSt _
    (Aead.tagging_ideal [] []).toCorrect (.inl rfl) (fun _ h => by cases h)
    (Option.some_get _).symm ?_ ?_
  · intro writable hmem
    rw [planned_sealedSt, List.mem_singleton] at hmem
    subst hmem
    exact ⟨rfl, "unsigned_integer", 1, rfl, by decide, by decide⟩
  · intro writable hmem hreadable n e o hentry hread
    rw [planned_sealedSt, List.mem_singleton] at hmem
    subst hmem
    obtain rfl := Except.ok.inj hread
    refine ⟨fun hnone => ?_, rfl⟩
    have hlight : sealedSt.entries[plannedLight.entryIndex]? = some sampleLight := by decide
    obtain rfl := Option.some.inj (hlight.symm.trans hentry)
    cases hnone

end BTHomeWritable.Agreement
