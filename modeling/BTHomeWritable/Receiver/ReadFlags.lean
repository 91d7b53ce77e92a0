import BTHomeWritable.Receiver.CacheLayout
import BTHomeWritable.Receiver.Turns

/-!
# The flags of a read

`_reading` belongs to the loop and is lent to the read of a command, which puts
back what it found: the loop cannot end meanwhile, for it waits for the link that
the command is inside of.  `_read_connected` is down again before a loop waits
for its `disconnect`, with the link still taken.

* What a step makes of the flags depends on whose step it is: `ReaderMoves` for a
  loop, and `Flags` for a command that carries no read, begins one, goes on with it
  or ends it.
* `FlagsInv` says what each flag stands for, who is inside, and what a command
  that carries a read will put back.  The one step in which the two kinds of task
  meet is `FlagsInv.writer`.

`flagsInv_run` is the run and `read_flags` reads off it when the flags are up;
`flag_down_while_disconnecting` is a loop that still has the link.
-/

namespace BTHomeWritable.Receiver

/-- What a read folded into a command puts back into `_reading`. -/
def Writer.restores : Writer → Option Bool
  | .folding _ wasReading _ _ => some wasReading
  | _ => none

theorem Writer.restores_isSome (w : Writer) : w.restores.isSome = w.carries := by
  cases w <;> rfl

theorem Writer.answered_of_carries {w : Writer} (h : w.carries = true) : w.answered = true := by
  cases w <;> simp_all [carries, answered]

theorem Reader.alive_of_inside {r : Reader} (h : r.inside = true) : r.alive = true := by
  cases r <;> simp_all [inside, alive]

theorem Reader.inside_of_connected {r : Reader} (h : r.connected = true) : r.inside = true := by
  cases r <;> simp_all [inside, connected]

theorem Reader.connected_of_inUse {r : Reader} (h : r.inUse = true) : r.connected = true := by
  cases r <;> simp_all [inUse, connected]

namespace Cache

/-! ## What a step makes of the flags -/

/-- Reader `i` goes on as `r`. -/
structure ReaderMoves (s s' : Cache) (i : ℕ) (old r : Reader) : Prop where
  readers : s'.readers = s.readers.set i r
  writers : s'.writers = s.writers
  reading : s.reading = true → s'.reading = r.alive
  readConnected : s.readConnected = old.inUse → s'.readConnected = r.inUse

/-- `_reading` and `_read_connected` before and after a step of a command that carries no read,
begins one, goes on with it, or ends it. -/
inductive Flags (reading connected : Bool) : Bool → Bool → Option Bool → Option Bool → Prop
  | idle : Flags reading connected reading connected none none
  | begins : Flags reading connected true true none (some reading)
  | goesOn (was : Bool) : Flags reading connected reading connected (some was) (some was)
  | ends (was : Bool) : Flags reading connected was false (some was) none

/-- `alive`: a loop is.  What is put back is what it should be. -/
theorem Flags.holds {reading connected reading' connected' : Bool} {old new : Option Bool}
    {alive : Prop} (h : Flags reading connected reading' connected' old new)
    (hreading : reading = true ↔ alive ∨ old.isSome = true)
    (hconnected : connected = true ↔ old.isSome = true)
    (hrestores : ∀ was, old = some was → (was = true ↔ alive)) :
    (reading' = true ↔ alive ∨ new.isSome = true) ∧ (connected' = true ↔ new.isSome = true) ∧
      ∀ was, new = some was → (was = true ↔ alive) := by
  cases h with
  | idle => exact ⟨hreading, hconnected, hrestores⟩
  | begins =>
      refine ⟨by simp, by simp, ?_⟩
      intro was hwas
      obtain rfl := Option.some.inj hwas
      simpa using hreading
  | goesOn was => exact ⟨hreading, hconnected, hrestores⟩
  | ends => exact ⟨by simpa using hrestores reading' rfl, by simp, by simp⟩

structure WriterMoves (s s' : Cache) (i : ℕ) (old w : Writer) : Prop where
  readers : s'.readers = s.readers
  writers : s'.writers = s.writers.set i w
  flags : Flags s.reading s.readConnected s'.reading s'.readConnected old.restores w.restores

variable {env : Opening} {s : Cache} {i : ℕ} {r : Reader} {w : Writer}

theorem readEntry_values (env : Opening) (s : Cache) (e : WritableEntry) (look : Look) :
    ∃ values, (s.readEntry env e look).1 = { s with values := values } := by
  cases look with
  | absent | writeOnly | raised => exact ⟨s.values, rfl⟩
  | answer raw =>
      simp only [readEntry]
      split
      · exact ⟨s.values, rfl⟩
      · exact ⟨s.values, rfl⟩
      · exact ⟨s.values, rfl⟩
      · exact ⟨_, rfl⟩

theorem settleWrittenValue_values (s : Cache) (o : Order) (layouts : ℕ)
    (reported : Option Bytes) :
    ∃ values, s.settleWrittenValue o layouts reported = { s with values := values } := by
  unfold settleWrittenValue
  split
  · split
    · exact ⟨_, rfl⟩
    · exact ⟨_, rfl⟩
  · exact ⟨s.values, rfl⟩

theorem loopFailed_moves (s : Cache) (i : ℕ) (hr : r.inUse = false) :
    ReaderMoves s (s.loopFailed i) i r .gone :=
  ⟨rfl, rfl, fun _ => rfl, fun h => h.trans hr⟩

theorem loopHead_moves (s : Cache) (i : ℕ) (reachable : Bool) (hr : r.inUse = false) :
    ∃ r', ReaderMoves s (s.loopHead i reachable) i r r' ∧ r'.inside = false := by
  unfold loopHead
  split
  · exact ⟨.gone, loopFailed_moves s i hr, rfl⟩
  · rename_i declaration _
    simp only
    split
    · exact ⟨.gone, ⟨rfl, rfl, fun _ => rfl, fun h => h.trans hr⟩, rfl⟩
    · split
      · exact ⟨.gone, loopFailed_moves s i hr, rfl⟩
      · exact ⟨.queued ⟨s.revisionAdvertised, declaration, s.layouts⟩ 1,
          ⟨rfl, rfl, fun h => h, fun h => h.trans hr⟩, rfl⟩

theorem loopDone_moves (s : Cache) (i : ℕ) (target : Option ℕ) (layouts : ℕ) (reachable : Bool)
    (hr : r.inUse = false) :
    ∃ r', ReaderMoves s (s.loopDone i target layouts reachable) i r r' ∧ r'.inside = false := by
  simp only [loopDone]
  split
  · exact ⟨.gone, ⟨rfl, rfl, fun _ => rfl, fun h => h.trans hr⟩, rfl⟩
  · obtain ⟨r', hmoves, hout⟩ := loopHead_moves (s.mark target layouts) i reachable hr
    exact ⟨r', ⟨hmoves.readers, hmoves.writers, hmoves.reading, hmoves.readConnected⟩, hout⟩

/-- A step of a reader that nobody cancels. -/
theorem readerStep_moves (env : Opening) (s : Cache) (i : ℕ) (r : Reader) (a : CacheAct)
    (ha : ∀ j, a ≠ .cancelRead j) :
    s.readerStep env i r a = s ∨
      r.alive = true ∧ ∃ r', ReaderMoves s (s.readerStep env i r a) i r r' := by
  -- a step that does not fit where the reader stands leaves the cache alone
  cases a with
  | link j reachable =>
      cases r with
      | queued c attempt =>
          right
          refine ⟨rfl, ?_⟩
          simp only [readerStep]
          split
          · obtain ⟨r', hmoves, -⟩ := loopDone_moves s i c.target s.markedIn reachable
              (r := .queued c attempt) rfl
            exact ⟨r', hmoves⟩
          · exact ⟨.connecting c attempt, rfl, rfl, fun h => h, fun h => h⟩
      | connecting | reading | closing | gone => exact Or.inl rfl
  | connected j =>
      cases r with
      | connecting c attempt =>
          exact Or.inr ⟨rfl, .reading c attempt (c.declaration.offered env.describe) false,
            rfl, rfl, fun h => h, fun _ => rfl⟩
      | queued | reading | closing | gone => exact Or.inl rfl
  | read j look =>
      cases r with
      | reading c attempt rest failed =>
          cases rest with
          | nil => exact Or.inl rfl
          | cons e rest =>
              right
              refine ⟨rfl, ?_⟩
              obtain ⟨values, hvalues⟩ := readEntry_values env s e look
              simp only [readerStep]
              cases hread : s.readEntry env e look with
              | mk s₁ result =>
                  rw [hread] at hvalues
                  subst hvalues
                  cases result with
                  | ok refused =>
                      exact ⟨.reading c attempt rest (failed || refused), rfl, rfl, fun h => h,
                        fun h => h⟩
                  | error result =>
                      exact ⟨.closing c attempt result, rfl, rfl, fun h => h, fun _ => rfl⟩
      | queued | connecting | closing | gone => exact Or.inl rfl
  | walked j =>
      cases r with
      | reading c attempt rest failed =>
          cases rest with
          | nil =>
              exact Or.inr ⟨rfl, .closing c attempt (.returned !failed), rfl, rfl, fun h => h,
                fun _ => rfl⟩
          | cons e rest => exact Or.inl rfl
      | queued | connecting | closing | gone => exact Or.inl rfl
  | closed j raises reachable =>
      cases r with
      | closing c attempt result =>
          right
          refine ⟨rfl, ?_⟩
          have hfailed : ReaderMoves s (s.loopFailed i) i (.closing c attempt result) .gone :=
            loopFailed_moves s i rfl
          simp only [readerStep]
          split
          · exact ⟨.gone, hfailed⟩
          · split
            · obtain ⟨r', hmoves, -⟩ := loopDone_moves s i c.target c.layouts reachable
                (r := .closing c attempt (.returned true)) rfl
              exact ⟨r', hmoves⟩
            · split
              · exact ⟨.queued c 2, rfl, rfl, fun h => h, fun h => h⟩
              · exact ⟨.gone, hfailed⟩
            · exact ⟨.gone, hfailed⟩
      | queued | connecting | reading | gone => exact Or.inl rfl
  | failRead j =>
      cases r with
      | queued c attempt => exact Or.inr ⟨rfl, .gone, loopFailed_moves s i rfl⟩
      | connecting c attempt => exact Or.inr ⟨rfl, .gone, loopFailed_moves s i rfl⟩
      | reading | closing | gone => exact Or.inl rfl
  | cancelRead j => exact absurd rfl (ha j)
  | advertise | request | pass | command | acknowledge | confirm | carry | carried | failWrite
  | cancelWrite => exact Or.inl rfl

theorem carryRead_moves (env : Opening) (s : Cache) (i : ℕ) (skip : Option ℕ)
    (hw : w.restores = none) : ∃ w', WriterMoves s (s.carryRead env i skip) i w w' := by
  unfold carryRead
  split
  · exact ⟨.gone, rfl, rfl, hw ▸ .idle⟩
  · exact ⟨_, rfl, rfl, hw ▸ .begins⟩

theorem carryEnds_moves (s : Cache) (i : ℕ) (c : Capture) (was done : Bool)
    (hw : w.restores = some was) : WriterMoves s (s.carryEnds i c was done) i w .gone := by
  unfold carryEnds
  cases done with
  | true => exact ⟨rfl, rfl, hw ▸ .ends was⟩
  | false => exact ⟨rfl, rfl, hw ▸ .ends was⟩

theorem confirm_moves (env : Opening) (s : Cache) (i : ℕ) (o : Order) (layouts : ℕ) (look : Look)
    (raises : Bool) (hw : w.restores = none) :
    ∃ w', WriterMoves s (s.confirm env i o layouts look raises) i w w' := by
  unfold confirm
  cases readBack env o.entry look with
  | none => exact ⟨.gone, rfl, rfl, hw ▸ .idle⟩
  | some reported =>
      obtain ⟨values, hvalues⟩ := settleWrittenValue_values s o layouts reported
      simp only [hvalues]
      split
      · exact ⟨.gone, rfl, rfl, hw ▸ .idle⟩
      · split
        · obtain ⟨w', hmoves⟩ := carryRead_moves env { s with values := values } i
            (if reported.isSome then some o.number else none) hw
          exact ⟨w', hmoves.readers, hmoves.writers, hmoves.flags⟩
        · exact ⟨.gone, rfl, rfl, hw ▸ .idle⟩

/-- A step of a command. -/
theorem writerStep_moves (env : Opening) (s : Cache) (i : ℕ) (w : Writer) (a : CacheAct) :
    s.writerStep env i w a = s ∨ ∃ w', WriterMoves s (s.writerStep env i w a) i w w' := by
  cases a with
  | acknowledge j =>
      cases w with
      | begun o => exact Or.inr ⟨.acknowledged o s.layouts, rfl, rfl, .idle⟩
      | acknowledged | folding | gone => exact Or.inl rfl
  | confirm j look raises =>
      cases w with
      | acknowledged o layouts => exact Or.inr (confirm_moves env s i o layouts look raises rfl)
      | begun | folding | gone => exact Or.inl rfl
  | carry j look =>
      cases w with
      | folding c was rest failed =>
          cases rest with
          | nil => exact Or.inl rfl
          | cons e rest =>
              right
              obtain ⟨values, hvalues⟩ := readEntry_values env s e look
              simp only [writerStep]
              cases hread : s.readEntry env e look with
              | mk s₁ result =>
                  rw [hread] at hvalues
                  subst hvalues
                  cases result with
                  | ok refused =>
                      exact ⟨.folding c was rest (failed || refused), rfl, rfl, .goesOn was⟩
                  | error result =>
                      exact ⟨.gone, rfl, rfl, .ends was⟩
      | begun | acknowledged | gone => exact Or.inl rfl
  | carried j =>
      cases w with
      | folding c was rest failed =>
          cases rest with
          | nil => exact Or.inr ⟨.gone, carryEnds_moves s i c was (!failed) rfl⟩
          | cons e rest => exact Or.inl rfl
      | begun | acknowledged | gone => exact Or.inl rfl
  | failWrite j =>
      cases w with
      | folding c was rest failed => exact Or.inr ⟨.gone, carryEnds_moves s i c was false rfl⟩
      | begun | acknowledged | gone => exact Or.inr ⟨.gone, rfl, rfl, .idle⟩
  | cancelWrite j =>
      cases w with
      | folding c was rest failed => exact Or.inr ⟨.gone, rfl, rfl, .ends was⟩
      | begun | acknowledged | gone => exact Or.inr ⟨.gone, rfl, rfl, .idle⟩
  | advertise | request | pass | command | link | connected | read | walked | closed | failRead
  | cancelRead => exact Or.inl rfl

/-- A read that is asked for is a new task, alive or over at once, unless one is under way. -/
theorem requestRead_moves (s : Cache) (reachable : Bool) :
    s.reading = true ∧ s.requestRead reachable = s ∨
      s.reading = false ∧ ∃ r, (s.requestRead reachable).readers = s.readers ++ [r] ∧
        (s.requestRead reachable).writers = s.writers ∧
        (s.requestRead reachable).reading = r.alive ∧
        (s.requestRead reachable).readConnected = s.readConnected ∧ r.inside = false := by
  unfold requestRead
  cases hreading : s.reading with
  | true => exact Or.inl ⟨rfl, rfl⟩
  | false =>
      right
      refine ⟨rfl, ?_⟩
      let task : Cache := { s with reading := true, readers := s.readers ++ [.gone] }
      obtain ⟨r, hmoves, hout⟩ := loopHead_moves task s.readers.length reachable (r := .gone) rfl
      have hreaders : task.readers.set s.readers.length r = s.readers ++ [r] := by
        simp [task]
      have hconnected : (task.loopHead s.readers.length reachable).readConnected =
          s.readConnected := by
        unfold loopHead
        split
        · rfl
        · simp only
          split
          · rfl
          · split <;> rfl
      exact ⟨r, hmoves.readers.trans hreaders, hmoves.writers, hmoves.reading rfl, hconnected, hout⟩

theorem requestRead_keeps (s : Cache) (reachable : Bool) :
    (s.requestRead reachable).writers = s.writers ∧
      (s.reading = true → (s.requestRead reachable).readers = s.readers) := by
  rcases s.requestRead_moves reachable with ⟨-, hsame⟩ | ⟨hidle, r, -, hwriters, -⟩
  · rw [hsame]
    exact ⟨rfl, fun _ => rfl⟩
  · exact ⟨hwriters, by simp [hidle]⟩

/-- The tasks, the flags and the mark are the same. -/
structure SameTasks (s s' : Cache) : Prop where
  revisionRead : s'.revisionRead = s.revisionRead
  readers : s'.readers = s.readers
  writers : s'.writers = s.writers
  reading : s'.reading = s.reading
  readConnected : s'.readConnected = s.readConnected

theorem noticeRevision_tasks (s : Cache) (revision : Option ℕ) (reachable : Bool) :
    ∃ s₁, SameTasks s s₁ ∧
      (s.noticeRevision revision reachable = s₁ ∨
        s.noticeRevision revision reachable = s₁.requestRead reachable) := by
  unfold noticeRevision
  cases revision with
  | none => exact ⟨s, ⟨rfl, rfl, rfl, rfl, rfl⟩, Or.inl rfl⟩
  | some r =>
      refine ⟨{ s with revisionAdvertised := some r }, ⟨rfl, rfl, rfl, rfl, rfl⟩, ?_⟩
      simp only
      split
      · exact Or.inl rfl
      · split
        · exact Or.inl rfl
        · exact Or.inr rfl

/-- Of an advertisement the tasks see at most a read that is asked for. -/
theorem advertise_tasks (s : Cache) (layout : Bytes) (revision : Option ℕ) (readable : ℕ → Bool)
    (reachable : Bool) :
    ∃ s₁, SameTasks s s₁ ∧ (s.advertise layout revision readable reachable = s₁ ∨
      s.advertise layout revision readable reachable = s₁.requestRead reachable) := by
  have hcleared : SameTasks s
      (if s.layoutChanges layout then { s with values := fun _ => none } else s) := by
    split <;> exact ⟨rfl, rfl, rfl, rfl, rfl⟩
  have hrecord : ∀ s₁, SameTasks s s₁ → SameTasks s (s₁.record layout revision readable) := by
    intro s₁ h
    unfold record
    split <;> exact ⟨h.revisionRead, h.readers, h.writers, h.reading, h.readConnected⟩
  have hknown := hrecord _ hcleared
  obtain ⟨s₁, hsame, hresult⟩ := noticeRevision_tasks
    { (if s.layoutChanges layout then { s with values := fun _ => none } else s).record
        layout revision readable with declaration := some ⟨entriesFrom 1 layout, revision⟩ }
    revision reachable
  exact ⟨s₁, ⟨hsame.revisionRead.trans hknown.revisionRead, hsame.readers.trans hknown.readers,
    hsame.writers.trans hknown.writers, hsame.reading.trans hknown.reading,
    hsame.readConnected.trans hknown.readConnected⟩, hresult⟩

end Cache

namespace Turns

/-! ## The invariant -/

structure FlagsInv (s : Turns) : Prop where
  single : ∀ i j, s.LoopAlive i → s.LoopAlive j → i = j
  inside : ∀ (i : ℕ) (r : Reader), s.cache.readers[i]? = some r → r.inside = true →
    s.inside = some (.reader i)
  answered : ∀ (i : ℕ) (w : Writer), s.cache.writers[i]? = some w → w.answered = true →
    s.inside = some (.writer i)
  reading : s.cache.reading = true ↔ (∃ i, s.LoopAlive i) ∨ ∃ i, s.Carrying i
  connected : s.cache.readConnected = true ↔
    (∃ (i : ℕ) (r : Reader), s.cache.readers[i]? = some r ∧ r.inUse = true) ∨ ∃ i, s.Carrying i
  restores : ∀ (i : ℕ) (w : Writer) (was : Bool), s.cache.writers[i]? = some w →
    w.restores = some was → (was = true ↔ ∃ j, s.LoopAlive j)

variable {env : Opening} {s s' : Turns} {i : ℕ} {r : Reader} {w : Writer}

theorem FlagsInv.inside_of_carrying (h : FlagsInv s) (hcarries : s.Carrying i) :
    s.inside = some (.writer i) := by
  obtain ⟨w, hw, hcarry⟩ := hcarries
  exact h.answered i w hw (Writer.answered_of_carries hcarry)

/-- No command carries a read, and `r` is the only reader that can be alive. -/
theorem FlagsInv.of_reader (hself : s'.cache.readers[i]? = some r)
    (hothers : ∀ j, j ≠ i → s'.cache.readers[j]? = s.cache.readers[j]?)
    (halone : ∀ j, s.LoopAlive j → j = i) (hcarry : ∀ j, ¬ s'.Carrying j)
    (hanswered : ∀ j w, s'.cache.writers[j]? = some w → w.answered = true →
      s'.inside = some (.writer j))
    (hin : r.inside = true → s'.inside = some (.reader i))
    (hreading : s'.cache.reading = r.alive) (hconnected : s'.cache.readConnected = r.inUse) :
    FlagsInv s' := by
  have honly : ∀ j r', s'.cache.readers[j]? = some r' → r'.alive = true → j = i ∧ r' = r := by
    intro j r' hr' halive
    by_cases hj : j = i
    · subst hj
      exact ⟨rfl, Option.some.inj (hr'.symm.trans hself)⟩
    · exact ⟨halone j ⟨r', hothers j hj ▸ hr', halive⟩, absurd (halone j ⟨r', hothers j hj ▸ hr',
        halive⟩) hj⟩
  refine ⟨?_, ?_, hanswered, ?_, ?_, ?_⟩
  · rintro j k ⟨r₁, hr₁, halive₁⟩ ⟨r₂, hr₂, halive₂⟩
    exact (honly j r₁ hr₁ halive₁).1.trans (honly k r₂ hr₂ halive₂).1.symm
  · intro j r' hr' hinside
    obtain ⟨rfl, rfl⟩ := honly j r' hr' (Reader.alive_of_inside hinside)
    exact hin hinside
  · rw [hreading]
    constructor
    · intro halive
      exact Or.inl ⟨i, r, hself, halive⟩
    · rintro (⟨j, r', hr', halive⟩ | ⟨j, hj⟩)
      · exact (honly j r' hr' halive).2 ▸ halive
      · exact absurd hj (hcarry j)
  · rw [hconnected]
    constructor
    · intro huse
      exact Or.inl ⟨i, r, hself, huse⟩
    · rintro (⟨j, r', hr', huse⟩ | ⟨j, hj⟩)
      · have halive := Reader.alive_of_inside
          (Reader.inside_of_connected (Reader.connected_of_inUse huse))
        exact (honly j r' hr' halive).2 ▸ huse
      · exact absurd hj (hcarry j)
  · intro j w was hw hwas
    exact absurd ⟨w, hw, by rw [← Writer.restores_isSome, hwas]; rfl⟩ (hcarry j)

/-- A step of the reader that has the link, or takes it. -/
theorem FlagsInv.reader (h : FlagsInv s) {old : Reader} (hr : s.cache.readers[i]? = some old)
    (halive : old.alive = true) (hinside : s.inside = none ∨ s.inside = some (.reader i))
    (hmoves : s.cache.ReaderMoves s'.cache i old r)
    (hin : s'.inside = if r.inside then some (.reader i) else none) : FlagsInv s' := by
  have hlt : i < s.cache.readers.length := (List.getElem?_eq_some_iff.1 hr).1
  have hnobody : ∀ j, s.inside ≠ some (.writer j) := by
    rintro j hj
    rcases hinside with h' | h' <;> simp [h'] at hj
  have hcarry : ∀ j, ¬ s.Carrying j := fun j hj => hnobody j (h.inside_of_carrying hj)
  have hreading : s.cache.reading = true := h.reading.2 (Or.inl ⟨i, old, hr, halive⟩)
  have hconnected : s.cache.readConnected = old.inUse := by
    rw [Bool.eq_iff_iff, h.connected]
    constructor
    · rintro (⟨j, r', hr', huse⟩ | ⟨j, hj⟩)
      · have hj : j = i := h.single j i ⟨r', hr', Reader.alive_of_inside
          (Reader.inside_of_connected (Reader.connected_of_inUse huse))⟩ ⟨old, hr, halive⟩
        subst hj
        exact Option.some.inj (hr'.symm.trans hr) ▸ huse
      · exact absurd hj (hcarry j)
    · intro huse
      exact Or.inl ⟨i, old, hr, huse⟩
  refine FlagsInv.of_reader (s := s) (i := i) (r := r) ?_ ?_ ?_ ?_ ?_ ?_
    (hmoves.reading hreading) (hmoves.readConnected hconnected)
  · rw [hmoves.readers, List.getElem?_set_self hlt]
  · intro j hj
    rw [hmoves.readers, List.getElem?_set_ne (Ne.symm hj)]
  · exact fun j hj => h.single j i hj ⟨old, hr, halive⟩
  · rintro j ⟨w, hw, hcarries⟩
    exact hcarry j ⟨w, hmoves.writers ▸ hw, hcarries⟩
  · intro j w hw hanswered
    exact absurd (h.answered j w (hmoves.writers ▸ hw) hanswered) (hnobody j)
  · intro hr'
    rw [hin, if_pos hr']

/-- Who is inside may change where it is nobody that is spoken of. -/
theorem FlagsInv.same (h : FlagsInv s) (hsame : s.cache.SameTasks s'.cache)
    (hreaders : ∀ (j : ℕ) (r : Reader), s.cache.readers[j]? = some r → r.inside = true →
      s'.inside = some (.reader j))
    (hwriters : ∀ (j : ℕ) (w : Writer), s.cache.writers[j]? = some w → w.answered = true →
      s'.inside = some (.writer j)) : FlagsInv s' where
  single j k hj hk := by
    simp only [LoopAlive, hsame.readers] at hj hk
    exact h.single j k hj hk
  inside j r hr hin := hreaders j r (hsame.readers ▸ hr) hin
  answered j w hw hanswered := hwriters j w (hsame.writers ▸ hw) hanswered
  reading := by
    simp only [LoopAlive, Carrying, hsame.readers, hsame.writers, hsame.reading]
    exact h.reading
  connected := by
    simp only [Carrying, hsame.readers, hsame.writers, hsame.readConnected]
    exact h.connected
  restores j w was hw hwas := by
    simp only [LoopAlive, hsame.readers]
    exact h.restores j w was (hsame.writers ▸ hw) hwas

theorem FlagsInv.sameInside (h : FlagsInv s) (hsame : s.cache.SameTasks s'.cache)
    (hinside : s'.inside = s.inside) : FlagsInv s' :=
  h.same hsame (fun j r hr hin => hinside.trans (h.inside j r hr hin)) fun j w hw hanswered =>
    hinside.trans (h.answered j w hw hanswered)

/-- A read that is asked for. -/
theorem FlagsInv.requestRead (h : FlagsInv s) {reachable : Bool}
    (hcache : s'.cache = s.cache.requestRead reachable) (hinside : s'.inside = s.inside) :
    FlagsInv s' := by
  rcases s.cache.requestRead_moves reachable with ⟨-, hsame⟩ | ⟨hidle, r, hreaders, hwriters,
    hreading, hconnected, hout⟩
  · refine h.sameInside ?_ hinside
    rw [hcache, hsame]
    exact ⟨rfl, rfl, rfl, rfl, rfl⟩
  · rw [← hcache] at hreaders hwriters hreading hconnected
    -- `_reading` is down, so no loop is alive and no command carries a read
    have hdead : ∀ j, ¬ s.LoopAlive j := by
      intro j hj
      exact absurd (h.reading.2 (Or.inl ⟨j, hj⟩)) (by simp [hidle])
    have hcarry : ∀ j, ¬ s.Carrying j := by
      intro j hj
      exact absurd (h.reading.2 (Or.inr ⟨j, hj⟩)) (by simp [hidle])
    have huse : r.inUse = false := by
      cases r <;> simp_all [Reader.inside, Reader.inUse]
    have hunused : s.cache.readConnected = false := by
      rw [Bool.eq_false_iff]
      intro hset
      rcases h.connected.1 hset with ⟨j, r', hr', huse'⟩ | ⟨j, hj⟩
      · exact hdead j ⟨r', hr', Reader.alive_of_inside
          (Reader.inside_of_connected (Reader.connected_of_inUse huse'))⟩
      · exact hcarry j hj
    refine FlagsInv.of_reader (s := s) (i := s.cache.readers.length) (r := r) ?_ ?_ ?_ ?_ ?_ ?_
      hreading ((hconnected.trans hunused).trans huse.symm)
    · rw [hreaders, List.getElem?_concat_length]
    · intro j hj
      rw [hreaders]
      rcases Nat.lt_or_gt_of_ne hj with hlt | hgt
      · exact List.getElem?_append_left hlt
      · rw [List.getElem?_append_right hgt.le, List.getElem?_eq_none hgt.le,
          List.getElem?_eq_none (by simp only [List.length_singleton]; omega)]
    · exact fun j hj => absurd hj (hdead j)
    · rintro j ⟨w, hw, hcarries⟩
      exact hcarry j ⟨w, hwriters ▸ hw, hcarries⟩
    · intro j w hw hanswered
      exact hinside.trans (h.answered j w (hwriters ▸ hw) hanswered)
    · intro hin
      simp [hout] at hin

/-- A step of the command inside. -/
theorem FlagsInv.writer (h : FlagsInv s) {old : Writer} (hw : s.cache.writers[i]? = some old)
    (hinside : s.inside = some (.writer i)) (hmoves : s.cache.WriterMoves s'.cache i old w)
    (hin : s'.inside = s.inside) : FlagsInv s' := by
  have hlt : i < s.cache.writers.length := (List.getElem?_eq_some_iff.1 hw).1
  have hself : s'.cache.writers[i]? = some w := by
    rw [hmoves.writers, List.getElem?_set_self hlt]
  -- the command inside is the only one that is answered, so the only one that can carry a
  -- read
  have hothers : ∀ j w', s'.cache.writers[j]? = some w' → w'.answered = true → j = i := by
    intro j w' hw' hanswered
    by_contra hj
    rw [hmoves.writers, List.getElem?_set_ne (Ne.symm hj)] at hw'
    have hother := h.answered j w' hw' hanswered
    rw [hinside] at hother
    exact hj (by simpa using hother.symm)
  have halone : ∀ j, s.Carrying j → j = i := by
    intro j hj
    simpa [hinside] using (h.inside_of_carrying hj).symm
  have hcarrying : ∀ j, s'.Carrying j ↔ j = i ∧ w.carries = true := by
    intro j
    constructor
    · rintro ⟨w', hw', hcarries⟩
      have hj := hothers j w' hw' (Writer.answered_of_carries hcarries)
      subst hj
      exact ⟨rfl, Option.some.inj (hw'.symm.trans hself) ▸ hcarries⟩
    · rintro ⟨rfl, hcarries⟩
      exact ⟨w, hself, hcarries⟩
  have halive : ∀ j, s'.LoopAlive j ↔ s.LoopAlive j := by
    intro j
    rw [LoopAlive, LoopAlive, hmoves.readers]
  -- and while it is inside no loop uses the connection
  have hunused : ∀ (j : ℕ) (r : Reader), s.cache.readers[j]? = some r → r.inUse = false := by
    intro j r hr
    rw [Bool.eq_false_iff]
    intro huse
    have hreader := h.inside j r hr (Reader.inside_of_connected (Reader.connected_of_inUse huse))
    simp [hinside] at hreader
  have hbefore : (∃ j, s.Carrying j) ↔ old.restores.isSome = true := by
    rw [Writer.restores_isSome]
    constructor
    · rintro ⟨j, hj⟩
      obtain rfl := halone j hj
      obtain ⟨w', hw', hcarries⟩ := hj
      exact Option.some.inj (hw'.symm.trans hw) ▸ hcarries
    · exact fun hcarries => ⟨i, old, hw, hcarries⟩
  have hafter : (∃ j, s'.Carrying j) ↔ w.restores.isSome = true := by
    rw [Writer.restores_isSome]
    constructor
    · rintro ⟨j, hj⟩
      exact ((hcarrying j).1 hj).2
    · exact fun hcarries => ⟨i, (hcarrying i).2 ⟨rfl, hcarries⟩⟩
  -- what `Flags` says of the flags, with what they stood for before
  obtain ⟨hreading, hconnected, hrestores⟩ := hmoves.flags.holds
    (h.reading.trans (or_congr_right hbefore))
    (h.connected.trans ⟨fun hor => hbefore.1 (hor.resolve_left (by
        rintro ⟨j, r, hr, huse⟩
        exact absurd huse (by simp [hunused j r hr]))),
      fun hsome => Or.inr (hbefore.2 hsome)⟩)
    (h.restores i old · hw ·)
  refine ⟨?_, ?_, ?_, ?_, ?_, ?_⟩
  · intro j k hj hk
    exact h.single j k ((halive j).1 hj) ((halive k).1 hk)
  · intro j r hr hin'
    exact hin.trans (h.inside j r (hmoves.readers ▸ hr) hin')
  · intro j w' hw' hanswered
    obtain rfl := hothers j w' hw' hanswered
    exact hin.trans hinside
  · rw [hreading, hafter]
    simp only [halive]
  · rw [hconnected, hafter]
    constructor
    · exact Or.inr
    · rintro (⟨j, r, hr, huse⟩ | hsome)
      · rw [hmoves.readers] at hr
        exact absurd huse (by simp [hunused j r hr])
      · exact hsome
  · intro j w' was hw' hwas
    have hcarries : w'.carries = true := by rw [← Writer.restores_isSome, hwas]; rfl
    obtain rfl := hothers j w' hw' (Writer.answered_of_carries hcarries)
    obtain rfl := Option.some.inj (hw'.symm.trans hself)
    simpa only [halive] using hrestores was hwas

theorem FlagsInv.takeReader (h : FlagsInv s) {a : CacheAct} (ha : ∀ j, a ≠ .cancelRead j)
    (hinside : s.inside = none ∨ s.inside = some (.reader i))
    (hcache : s'.cache = s.cache.readers[i]?.elim s.cache fun r => s.cache.readerStep env i r a)
    (hin : s'.inside = if (s'.cache.readers[i]?.map Reader.inside).getD false then
      some (.reader i) else none) : FlagsInv s' := by
  have hnone : s'.cache = s.cache → FlagsInv s' := by
    intro hsame
    refine h.same (hsame ▸ ⟨rfl, rfl, rfl, rfl, rfl⟩) ?_ ?_
    · intro j r hr hr'
      have hj := h.inside j r hr hr'
      rcases hinside with hnobody | hself
      · simp [hnobody] at hj
      · obtain rfl : i = j := by simpa [hself] using hj
        rw [hin, hsame, hr]
        simp [hr']
    · intro j w hw hanswered
      have hj := h.answered j w hw hanswered
      rcases hinside with h' | h' <;> simp [h'] at hj
  cases hr : s.cache.readers[i]? with
  | none => exact hnone (by rw [hcache, hr]; rfl)
  | some old =>
      rw [hr, Option.elim_some] at hcache
      rcases Cache.readerStep_moves env s.cache i old a ha with hsame | ⟨halive, r, hmoves⟩
      · exact hnone (hcache.trans hsame)
      · rw [← hcache] at hmoves
        refine h.reader hr halive hinside hmoves ?_
        have hlt : i < s.cache.readers.length := (List.getElem?_eq_some_iff.1 hr).1
        rw [hin, hmoves.readers, List.getElem?_set_self hlt]
        rfl

theorem FlagsInv.takeWriter (h : FlagsInv s) {a : CacheAct}
    (hinside : s.inside = some (.writer i))
    (hcache : s'.cache = s.cache.writers[i]?.elim s.cache fun w => s.cache.writerStep env i w a)
    (hin : s'.inside = s.inside) : FlagsInv s' := by
  have hnone : s'.cache = s.cache → FlagsInv s' := by
    intro hsame
    exact h.sameInside (hsame ▸ ⟨rfl, rfl, rfl, rfl, rfl⟩) hin
  cases hw : s.cache.writers[i]? with
  | none => exact hnone (by rw [hcache, hw]; rfl)
  | some old =>
      rw [hw, Option.elim_some] at hcache
      rcases Cache.writerStep_moves env s.cache i old a with hsame | ⟨w, hmoves⟩
      · exact hnone (hcache.trans hsame)
      · exact h.writer hw hinside (hcache ▸ hmoves) hin

/-- A command has begun to wait. -/
theorem FlagsInv.command (h : FlagsInv s) {o : Order}
    (hcache : s'.cache = { s.cache with writers := s.cache.writers ++ [.begun o] })
    (hin : s'.inside = s.inside) : FlagsInv s' := by
  -- a command that has only begun is not answered, so what is answered was there before
  have hnew : ∀ (j : ℕ) (w : Writer), s'.cache.writers[j]? = some w → w.answered = true →
      s.cache.writers[j]? = some w := by
    intro j w hw hanswered
    rw [hcache] at hw
    rcases Nat.lt_trichotomy j s.cache.writers.length with hlt | rfl | hgt
    · rwa [List.getElem?_append_left hlt] at hw
    · rw [List.getElem?_concat_length] at hw
      obtain rfl := Option.some.inj hw
      simp [Writer.answered] at hanswered
    · have hlen : (s.cache.writers ++ [Writer.begun o]).length ≤ j := by
        simp only [List.length_append, List.length_singleton]
        omega
      rw [List.getElem?_eq_none hlen] at hw
      cases hw
  have hcarrying : ∀ j, s'.Carrying j ↔ s.Carrying j := by
    intro j
    constructor
    · rintro ⟨w, hw, hcarries⟩
      exact ⟨w, hnew j w hw (Writer.answered_of_carries hcarries), hcarries⟩
    · rintro ⟨w, hw, hcarries⟩
      refine ⟨w, ?_, hcarries⟩
      rw [hcache]
      exact (List.getElem?_append_left (List.getElem?_eq_some_iff.1 hw).1).trans hw
  have halive : ∀ j, s'.LoopAlive j ↔ s.LoopAlive j := by
    intro j
    rw [LoopAlive, LoopAlive, hcache]
  refine ⟨?_, ?_, ?_, ?_, ?_, ?_⟩
  · intro j k hj hk
    exact h.single j k ((halive j).1 hj) ((halive k).1 hk)
  · intro j r hr hin'
    rw [hcache] at hr
    exact hin.trans (h.inside j r hr hin')
  · intro j w hw hanswered
    exact hin.trans (h.answered j w (hnew j w hw hanswered) hanswered)
  · simp only [halive, hcarrying]
    rw [hcache]
    exact h.reading
  · simp only [hcarrying]
    rw [hcache]
    exact h.connected
  · intro j w was hw hwas
    have hcarries : w.carries = true := by rw [← Writer.restores_isSome, hwas]; rfl
    simpa only [halive] using
      h.restores j w was (hnew j w hw (Writer.answered_of_carries hcarries)) hwas

theorem FlagsInv.take (h : FlagsInv s) {a : CacheAct} (hallows : s.allows a = true) :
    FlagsInv (s.take env a) := by
  have hinside : ∀ (v : Visitor), decide (s.inside = some v) = true → s.inside = some v :=
    fun _ hv => of_decide_eq_true hv
  cases a with
  | advertise layout revision readable reachable =>
      obtain ⟨c, hsame, hresult⟩ :=
        s.cache.advertise_tasks layout revision readable reachable
      have hc : FlagsInv { s with cache := c } := h.sameInside hsame rfl
      rcases hresult with hresult | hresult
      · exact hc.sameInside (hresult ▸ ⟨rfl, rfl, rfl, rfl, rfl⟩) rfl
      · exact hc.requestRead hresult rfl
  | request reachable => exact h.requestRead rfl rfl
  | pass seconds => exact h.sameInside ⟨rfl, rfl, rfl, rfl, rfl⟩ rfl
  | command number value coalesce =>
      cases hentry : s.cache.entry number with
      | none =>
          refine h.sameInside ?_ rfl
          show s.cache.SameTasks (s.cache.step env (.command number value coalesce))
          simp only [Cache.step, hentry]
          exact ⟨rfl, rfl, rfl, rfl, rfl⟩
      | some entry =>
          refine h.command (o := ⟨number, value, coalesce, entry, s.cache.valueOf number⟩) ?_ rfl
          show s.cache.step env (.command number value coalesce) = _
          simp only [Cache.step, hentry]
  | link j reachable =>
      exact h.takeReader (by simp) (Or.inl (Option.isNone_iff_eq_none.1 hallows)) rfl rfl
  | connected j => exact h.takeReader (by simp) (Or.inr (hinside _ hallows)) rfl rfl
  | read j look => exact h.takeReader (by simp) (Or.inr (hinside _ hallows)) rfl rfl
  | walked j => exact h.takeReader (by simp) (Or.inr (hinside _ hallows)) rfl rfl
  | closed j raises reachable => exact h.takeReader (by simp) (Or.inr (hinside _ hallows)) rfl rfl
  | failRead j => exact h.takeReader (by simp) (Or.inr (hinside _ hallows)) rfl rfl
  | acknowledge j =>
      exact h.takeWriter (hinside _ (Bool.and_eq_true_iff.1 hallows).1) rfl rfl
  | confirm j look raises => exact h.takeWriter (hinside _ hallows) rfl rfl
  | carry j look => exact h.takeWriter (hinside _ hallows) rfl rfl
  | carried j => exact h.takeWriter (hinside _ hallows) rfl rfl
  | failWrite j => exact h.takeWriter (hinside _ hallows) rfl rfl
  | cancelWrite j => simp [allows] at hallows
  | cancelRead j => simp [allows] at hallows

/-- Neither a read nor a command is inside. -/
theorem FlagsInv.vacant (h : FlagsInv s) (hinside : s.inside = none ∨ s.inside = some .other)
    (hcache : s'.cache = s.cache) : FlagsInv s' := by
  refine h.same (hcache ▸ ⟨rfl, rfl, rfl, rfl, rfl⟩) ?_ ?_
  · intro j r hr hin
    have hj := h.inside j r hr hin
    rcases hinside with h' | h' <;> simp [h'] at hj
  · intro j w hw hanswered
    have hj := h.answered j w hw hanswered
    rcases hinside with h' | h' <;> simp [h'] at hj

/-- A command is out of the link once it has ended. -/
theorem FlagsInv.leave (h : FlagsInv s) (hgone : s.cache.writers[i]? = some .gone)
    (hself : s.inside = some (.writer i)) (hcache : s'.cache = s.cache) : FlagsInv s' := by
  refine h.same (hcache ▸ ⟨rfl, rfl, rfl, rfl, rfl⟩) ?_ ?_
  · intro j r hr hin
    simpa [hself] using h.inside j r hr hin
  · intro j w hw hanswered
    have hj := h.answered j w hw hanswered
    obtain rfl : i = j := by simpa [hself] using hj
    obtain rfl := Option.some.inj (hw.symm.trans hgone)
    simp [Writer.answered] at hanswered

theorem FlagsInv.step (h : FlagsInv s) (a : TurnAct) : FlagsInv (s.step env a) := by
  cases a with
  | act a =>
      simp only [Turns.step]
      split
      · rename_i hallows
        exact h.take hallows
      · exact h
  | enter j =>
      simp only [Turns.step]
      split
      · rename_i hnobody _
        exact h.vacant (Or.inl hnobody) rfl
      · exact h
  | send j =>
      simp only [Turns.step]
      split
      · split
        · exact h.sameInside ⟨rfl, rfl, rfl, rfl, rfl⟩ rfl
        · exact h
      · exact h
  | leave j =>
      simp only [Turns.step]
      split
      · rename_i hgone
        split
        · rename_i hself
          exact h.leave hgone hself rfl
        · exact h
      · exact h
  | enterOther =>
      simp only [Turns.step]
      split
      · rename_i hnobody
        exact h.vacant (Or.inl (Option.isNone_iff_eq_none.1 hnobody)) rfl
      · exact h
  | leaveOther =>
      simp only [Turns.step]
      split
      · rename_i hother
        exact h.vacant (Or.inr hother) rfl
      · exact h

theorem flagsInv_start (remembered : Option (Bytes × Option ℕ)) (readable : ℕ → Bool) :
    FlagsInv (start remembered readable) := by
  constructor <;> simp [start, Cache.start, LoopAlive, Carrying]

theorem flagsInv_run (env : Opening) (remembered : Option (Bytes × Option ℕ))
    (readable : ℕ → Bool) (acts : List TurnAct) :
    FlagsInv (Runs.run (step env) (start remembered readable) acts) := by
  refine Runs.run_invariant (P := fun _ _ => True) (fun _ a h _ => h.step a)
    (flagsInv_start remembered readable) ?_
  exact Runs.Along.of_forall (R := fun _ => True) fun _ _ => trivial

/-! ## The flags -/

/-- A read has a connection: a loop's from its `_connect` to the end of its `disconnect`, or that of
the command it is folded into. -/
def Connected (s : Turns) : Visitor → Prop
  | .reader i => ∃ r, s.cache.readers[i]? = some r ∧ r.connected = true
  | .writer i => s.Carrying i
  | .other => False

/-- A read has a connection that it is not giving back yet. -/
def InUse (s : Turns) : Visitor → Prop
  | .reader i => ∃ r, s.cache.readers[i]? = some r ∧ r.inUse = true
  | .writer i => s.Carrying i
  | .other => False

theorem FlagsInv.inside_of_connected (h : FlagsInv s) {v : Visitor} (hv : s.Connected v) :
    s.inside = some v := by
  cases v with
  | reader i =>
      obtain ⟨r, hr, hconnected⟩ := hv
      exact h.inside i r hr (Reader.inside_of_connected hconnected)
  | writer i => exact h.inside_of_carrying hv
  | other => exact hv.elim

theorem FlagsInv.readConnected_iff (h : FlagsInv s) :
    s.cache.readConnected = true ↔ ∃ v, s.InUse v := by
  rw [h.connected]
  constructor
  · rintro (⟨i, hi⟩ | ⟨i, hi⟩)
    · exact ⟨.reader i, hi⟩
    · exact ⟨.writer i, hi⟩
  · rintro ⟨v, hv⟩
    cases v with
    | reader i => exact Or.inl ⟨i, hv⟩
    | writer i => exact Or.inr ⟨i, hv⟩
    | other => exact hv.elim

/-- In every state reached, `_reading` says that a loop is alive or a folded read runs,
`_read_connected` that one of them has a connection it is not giving back, at most one loop is
alive, at most one read has a connection, and no flag outlives the reads. -/
theorem read_flags (env : Opening) (remembered : Option (Bytes × Option ℕ))
    (readable : ℕ → Bool) (acts : List TurnAct) :
    let s := Runs.run (step env) (start remembered readable) acts
    (s.cache.reading = true ↔ (∃ i, s.LoopAlive i) ∨ ∃ i, s.Carrying i) ∧
    (s.cache.readConnected = true ↔ ∃ v, s.InUse v) ∧
    (∀ i j, s.LoopAlive i → s.LoopAlive j → i = j) ∧
    (∀ v v', s.Connected v → s.Connected v' → v = v') ∧
    ((∀ i, ¬ s.LoopAlive i) → (∀ i, ¬ s.Carrying i) →
      s.cache.reading = false ∧ s.cache.readConnected = false) := by
  intro s
  have h : FlagsInv s := flagsInv_run env remembered readable acts
  refine ⟨h.reading, h.readConnected_iff, h.single, ?_, ?_⟩
  · intro v v' hv hv'
    exact Option.some.inj ((h.inside_of_connected hv).symm.trans (h.inside_of_connected hv'))
  · intro hdead hcarry
    constructor
    · rw [Bool.eq_false_iff, Ne, h.reading]
      rintro (⟨i, hi⟩ | ⟨i, hi⟩)
      · exact hdead i hi
      · exact hcarry i hi
    · rw [Bool.eq_false_iff, Ne, h.readConnected_iff]
      rintro ⟨v, hv⟩
      cases v with
      | reader i =>
          obtain ⟨r, hr, huse⟩ := hv
          exact hdead i ⟨r, hr, Reader.alive_of_inside
            (Reader.inside_of_connected (Reader.connected_of_inUse huse))⟩
      | writer i => exact hcarry i hv
      | other => exact hv

/-- A loop that has read the device waits for `disconnect`: its connection is there and the flag is
down. -/
theorem flag_down_while_disconnecting :
    let s := Runs.run (step Cache.sampleOpening) (start none fun _ => true)
      [.act (.advertise [0x1E] (some 5) (fun _ => true) true), .act (.link 0 true),
        .act (.connected 0), .act (.read 0 (.answer [0x1E, 0x01])), .act (.walked 0)]
    ¬ (s.cache.readConnected = true ↔ ∃ v, s.Connected v) := by
  intro s hiff
  have hdown : s.cache.readConnected = false := by decide
  have hup : s.cache.readConnected = true := hiff.2 ⟨.reader 0, _, rfl, rfl⟩
  rw [hdown] at hup
  exact Bool.false_ne_true hup

end Turns
end BTHomeWritable.Receiver
