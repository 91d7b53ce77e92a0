import BTHomeWritable.Receiver.ReadFlags

/-!
# A queued read and the command that carried it

A loop fixes its target before it waits.  The read of a command, made meanwhile,
is marked for the revision that is advertised then, and the loop that stands down
for it stores the target of its own.  The cases of a mark are two:

```text
the loop stands down   what it fixed is what is advertised, or a command's mark is undone
the loop has read      nothing was marked since it fixed its target, or a command's mark is undone
```

Commands are inside of the link from the first entry they read to the mark, so
their own marks never go back.

* `loopMarks` and `carryMarks` are the two steps that move the mark, and
  `revisionRead_of_unmarked` says that no other does.
* `OrderInv` relates what a read has fixed (`Aimed`, `Carried`) to the revisions
  advertised since: the mark is the oldest of them, and a loop that nobody has
  overtaken aims at one that is no older.
* `timely` is the condition on a step that `GoesBack` never happens under
  (`OrderInv.not_goesBack`).

`queued_read_stands_down` is the run, and `overtaken_read_waits_again` one with a
step that is not `timely`.
-/

namespace BTHomeWritable.Receiver

def Writer.capture : Writer → Option Capture
  | .folding c _ _ _ => some c
  | _ => none

theorem Reader.alive_of_capture {r : Reader} {c : Capture} (h : r.capture = some c) :
    r.alive = true := by
  cases r <;> simp_all [capture, alive]

theorem Writer.carries_of_capture {w : Writer} {c : Capture} (h : w.capture = some c) :
    w.carries = true := by
  cases w <;> simp_all [capture, carries]

namespace Cache

variable {env : Opening} {s : Cache} {i : ℕ} {r : Reader} {c : Capture} {a : CacheAct}

/-! ## What a step marks -/

theorem loopHead_revisions (s : Cache) (i : ℕ) (reachable : Bool) :
    (s.loopHead i reachable).revisionRead = s.revisionRead ∧
      (s.loopHead i reachable).writers = s.writers ∧
      ∃ r, (s.loopHead i reachable).readers = s.readers.set i r ∧
        ∀ c, r.capture = some c → c.target = s.revisionAdvertised := by
  unfold loopHead
  split
  · exact ⟨rfl, rfl, .gone, rfl, by simp [Reader.capture]⟩
  · rename_i declaration _
    simp only
    split
    · exact ⟨rfl, rfl, .gone, rfl, by simp [Reader.capture]⟩
    · split
      · exact ⟨rfl, rfl, .gone, rfl, by simp [Reader.capture]⟩
      · refine ⟨rfl, rfl, .queued ⟨s.revisionAdvertised, declaration, s.layouts⟩ 1, rfl, ?_⟩
        intro c hc
        obtain rfl := Option.some.inj hc
        rfl

/-- A loop that marks its target ends, or aims anew. -/
theorem loopDone_revisions (s : Cache) (i : ℕ) (target : Option ℕ) (layouts : ℕ)
    (reachable : Bool) :
    (s.loopDone i target layouts reachable).revisionRead = target ∧
      (s.loopDone i target layouts reachable).writers = s.writers ∧
      ∃ r, (s.loopDone i target layouts reachable).readers = s.readers.set i r ∧
        ∀ c, r.capture = some c → c.target = s.revisionAdvertised := by
  simp only [loopDone]
  split
  · exact ⟨rfl, rfl, .gone, rfl, by simp [Reader.capture]⟩
  · exact loopHead_revisions (s.mark target layouts) i reachable

theorem requestRead_revisions (s : Cache) (reachable : Bool) :
    (s.requestRead reachable).revisionRead = s.revisionRead ∧
      (s.reading = false → ∃ r, (s.requestRead reachable).readers = s.readers ++ [r] ∧
        ∀ c, r.capture = some c → c.target = s.revisionAdvertised) := by
  unfold requestRead
  cases hreading : s.reading with
  | true => exact ⟨rfl, by simp⟩
  | false =>
      let task : Cache := { s with reading := true, readers := s.readers ++ [.gone] }
      obtain ⟨hread, -, r, hreaders, haims⟩ := loopHead_revisions task s.readers.length reachable
      refine ⟨hread, fun _ => ⟨r, ?_, haims⟩⟩
      exact hreaders.trans (by simp [task])

/-- A loop's mark is its target. -/
theorem revisions_of_loopMarks (env : Opening) (hmarks : s.loopMarks a = some c) :
    (s.step env a).revisionRead = c.target ∧ (s.step env a).writers = s.writers ∧
      ∃ i old r, s.readers[i]? = some old ∧ old.capture = some c ∧ old.alive = true ∧
        (s.step env a).readers = s.readers.set i r ∧
        ∀ c, r.capture = some c → c.target = s.revisionAdvertised := by
  cases a with
  | link i reachable =>
      simp only [loopMarks] at hmarks
      split at hmarks
      · rename_i c' attempt hr
        split at hmarks
        · rename_i hread
          obtain rfl := Option.some.inj hmarks
          obtain ⟨hmark, hwriters, r, hreaders, haims⟩ :=
            loopDone_revisions s i c'.target s.markedIn reachable
          have hstep : s.step env (.link i reachable) =
              s.loopDone i c'.target s.markedIn reachable := by
            simp only [step, hr, Option.elim_some, readerStep, hread, if_true]
          rw [hstep]
          exact ⟨hmark, hwriters, i, _, r, hr, rfl, rfl, hreaders, haims⟩
        · simp at hmarks
      · simp at hmarks
  | closed i raises reachable =>
      cases raises with
      | true => simp [loopMarks] at hmarks
      | false =>
          simp only [loopMarks] at hmarks
          split at hmarks
          · rename_i c' attempt hr
            obtain rfl := Option.some.inj hmarks
            obtain ⟨hmark, hwriters, r, hreaders, haims⟩ :=
              loopDone_revisions s i c'.target c'.layouts reachable
            have hstep : s.step env (.closed i false reachable) =
                s.loopDone i c'.target c'.layouts reachable := by
              simp [step, hr, readerStep]
            rw [hstep]
            exact ⟨hmark, hwriters, i, _, r, hr, rfl, rfl, hreaders, haims⟩
          · simp at hmarks
  | advertise | request | pass | command | acknowledge | confirm | carry | carried | failWrite
  | cancelWrite | connected | read | walked | failRead | cancelRead => simp [loopMarks] at hmarks

theorem revisions_of_carryMarks (env : Opening) (hmarks : s.carryMarks a = some c) :
    (s.step env a).revisionRead = c.target ∧ (s.step env a).readers = s.readers ∧
      ∃ i w, s.writers[i]? = some w ∧ w.capture = some c ∧
        (s.step env a).writers = s.writers.set i .gone := by
  cases a with
  | carried i =>
      simp only [carryMarks] at hmarks
      split at hmarks
      · rename_i c' was hw
        obtain rfl := Option.some.inj hmarks
        have hstep : s.step env (.carried i) = s.carryEnds i c' was true := by
          simp [step, hw, writerStep]
        rw [hstep]
        exact ⟨rfl, rfl, i, _, hw, rfl, rfl⟩
      · simp at hmarks
  | advertise | request | pass | command | acknowledge | confirm | carry | link | failWrite
  | cancelWrite | connected | read | walked | closed | failRead | cancelRead =>
      simp [carryMarks] at hmarks

/-! ## What a step that marks nothing leaves -/

/-- The reads that are under way were under way before. -/
def Keeps {α : Type} (capture : α → Option Capture) (before after : List α) : Prop :=
  ∀ (j : ℕ) (x : α) (c : Capture), after[j]? = some x → capture x = some c →
    ∃ x₀, before[j]? = some x₀ ∧ capture x₀ = some c

theorem Keeps.refl {α : Type} {capture : α → Option Capture} (l : List α) : Keeps capture l l :=
  fun _ x _ hx hc => ⟨x, hx, hc⟩

theorem Keeps.set {α : Type} {capture : α → Option Capture} {l : List α} {old x : α}
    (hold : l[i]? = some old) (hx : capture x = capture old ∨ capture x = none) :
    Keeps capture l (l.set i x) := by
  intro j y c hy hc
  by_cases hj : i = j
  · subst hj
    rw [List.getElem?_set_self (List.getElem?_eq_some_iff.1 hold).1] at hy
    obtain rfl := Option.some.inj hy
    rcases hx with hx | hx
    · exact ⟨old, hold, hx ▸ hc⟩
    · simp [hx] at hc
  · rw [List.getElem?_set_ne hj] at hy
    exact ⟨y, hy, hc⟩

theorem Keeps.append {α : Type} {capture : α → Option Capture} {x : α} (l : List α)
    (hx : capture x = none) : Keeps capture l (l ++ [x]) := by
  intro j y c hy hc
  rcases Nat.lt_trichotomy j l.length with hlt | rfl | hgt
  · rw [List.getElem?_append_left hlt] at hy
    exact ⟨y, hy, hc⟩
  · rw [List.getElem?_concat_length] at hy
    obtain rfl := Option.some.inj hy
    simp [hx] at hc
  · rw [List.getElem?_eq_none (by simp only [List.length_append, List.length_singleton]; omega)]
      at hy
    simp at hy

theorem readerStep_keeps (env : Opening) {old : Reader} (hr : s.readers[i]? = some old)
    (hmarks : s.loopMarks a = none) (ha : (∃ reachable, a = .link i reachable) ∨
      a = .connected i ∨ (∃ look, a = .read i look) ∨ a = .walked i ∨
      (∃ raises reachable, a = .closed i raises reachable) ∨ a = .failRead i) :
    (s.readerStep env i old a).revisionRead = s.revisionRead ∧
      (s.readerStep env i old a).writers = s.writers ∧
      Keeps Reader.capture s.readers (s.readerStep env i old a).readers := by
  obtain ⟨reachable, rfl⟩ | rfl | ⟨look, rfl⟩ | rfl | ⟨raises, reachable, rfl⟩ | rfl := ha
  · cases old with
    | queued c attempt =>
        have hread : s.revisionIsRead = false := by
          simpa [loopMarks, hr] using hmarks
        simp only [readerStep, hread, Bool.false_eq_true, if_false]
        exact ⟨rfl, rfl, Keeps.set hr (Or.inl rfl)⟩
    | connecting | reading | closing | gone => exact ⟨rfl, rfl, Keeps.refl _⟩
  · cases old with
    | connecting c attempt =>
        exact ⟨rfl, rfl, Keeps.set hr (Or.inl rfl)⟩
    | queued | reading | closing | gone => exact ⟨rfl, rfl, Keeps.refl _⟩
  · cases old with
    | reading c attempt rest failed =>
        cases rest with
        | nil => exact ⟨rfl, rfl, Keeps.refl _⟩
        | cons e rest =>
            obtain ⟨values, hvalues⟩ := readEntry_values env s e look
            simp only [readerStep]
            cases hread : s.readEntry env e look with
            | mk s₁ result =>
                rw [hread] at hvalues
                subst hvalues
                cases result with
                | ok refused =>
                    exact ⟨rfl, rfl, Keeps.set hr (Or.inl rfl)⟩
                | error result =>
                    exact ⟨rfl, rfl, Keeps.set hr (Or.inl rfl)⟩
    | queued | connecting | closing | gone => exact ⟨rfl, rfl, Keeps.refl _⟩
  · cases old with
    | reading c attempt rest failed =>
        cases rest with
        | nil =>
            exact ⟨rfl, rfl, Keeps.set hr (Or.inl rfl)⟩
        | cons e rest => exact ⟨rfl, rfl, Keeps.refl _⟩
    | queued | connecting | closing | gone => exact ⟨rfl, rfl, Keeps.refl _⟩
  · cases old with
    | closing c attempt result =>
        have hfailed : (s.loopFailed i).revisionRead = s.revisionRead ∧
            (s.loopFailed i).writers = s.writers ∧
              Keeps Reader.capture s.readers (s.loopFailed i).readers :=
          ⟨rfl, rfl, Keeps.set hr (Or.inr rfl)⟩
        simp only [readerStep]
        split
        · exact hfailed
        · rename_i hraises
          split
          · simp [loopMarks, hr, Bool.eq_false_iff.2 hraises] at hmarks
          · split
            · exact ⟨rfl, rfl, Keeps.set hr (Or.inl rfl)⟩
            · exact hfailed
          · exact hfailed
    | queued | connecting | reading | gone => exact ⟨rfl, rfl, Keeps.refl _⟩
  · cases old with
    | queued c attempt => exact ⟨rfl, rfl, Keeps.set hr (Or.inr rfl)⟩
    | connecting c attempt => exact ⟨rfl, rfl, Keeps.set hr (Or.inr rfl)⟩
    | reading | closing | gone => exact ⟨rfl, rfl, Keeps.refl _⟩

theorem carryRead_begins (env : Opening) (s : Cache) (i : ℕ) (skip : Option ℕ) :
    (s.carryRead env i skip).revisionRead = s.revisionRead ∧
      (s.carryRead env i skip).readers = s.readers ∧
      ∃ w, (s.carryRead env i skip).writers = s.writers.set i w ∧
        ∀ c, w.capture = some c → c.target = s.revisionAdvertised := by
  unfold carryRead
  split
  · exact ⟨rfl, rfl, .gone, rfl, by simp [Writer.capture]⟩
  · refine ⟨rfl, rfl, _, rfl, ?_⟩
    intro c hc
    obtain rfl := Option.some.inj hc
    rfl

/-- A read that a command begins is for the revision that is advertised. -/
theorem confirm_begins (env : Opening) (s : Cache) (i : ℕ) (o : Order) (layouts : ℕ) (look : Look)
    (raises : Bool) :
    (s.confirm env i o layouts look raises).revisionRead = s.revisionRead ∧
      (s.confirm env i o layouts look raises).readers = s.readers ∧
      ∃ w, (s.confirm env i o layouts look raises).writers = s.writers.set i w ∧
        ∀ c, w.capture = some c →
          c.target = s.revisionAdvertised ∧ s.revisionAdvertised.isSome = true := by
  unfold confirm
  cases readBack env o.entry look with
  | none => exact ⟨rfl, rfl, .gone, rfl, by simp [Writer.capture]⟩
  | some reported =>
      obtain ⟨values, hvalues⟩ := settleWrittenValue_values s o layouts reported
      simp only [hvalues]
      split
      · exact ⟨rfl, rfl, .gone, rfl, by simp [Writer.capture]⟩
      · split
        · rename_i hdue
          obtain ⟨hread, hreaders, w, hwriters, hc⟩ := carryRead_begins env
            { s with values := values } i (if reported.isSome then some o.number else none)
          refine ⟨hread, hreaders, w, hwriters, fun c h => ⟨hc c h, ?_⟩⟩
          simp only [FOLD_A_DUE_READ_INTO_A_WRITE, Bool.true_and, readIsDue] at hdue
          split at hdue
          · simp at hdue
          · split at hdue
            · simp at hdue
            · rename_i hnone
              simpa [Option.isSome_iff_ne_none] using hnone
        · exact ⟨rfl, rfl, .gone, rfl, by simp [Writer.capture]⟩

theorem writerStep_keeps (env : Opening) {old : Writer} (hw : s.writers[i]? = some old)
    (hmarks : s.carryMarks a = none) (ha : a = .acknowledge i ∨ (∃ look, a = .carry i look) ∨
      a = .carried i ∨ a = .failWrite i) :
    (s.writerStep env i old a).revisionRead = s.revisionRead ∧
      (s.writerStep env i old a).readers = s.readers ∧
      Keeps Writer.capture s.writers (s.writerStep env i old a).writers := by
  obtain rfl | ⟨look, rfl⟩ | rfl | rfl := ha
  · cases old with
    | begun o => exact ⟨rfl, rfl, Keeps.set hw (Or.inl rfl)⟩
    | acknowledged | folding | gone => exact ⟨rfl, rfl, Keeps.refl _⟩
  · cases old with
    | folding c was rest failed =>
        cases rest with
        | nil => exact ⟨rfl, rfl, Keeps.refl _⟩
        | cons e rest =>
            obtain ⟨values, hvalues⟩ := readEntry_values env s e look
            simp only [writerStep]
            cases hread : s.readEntry env e look with
            | mk s₁ result =>
                rw [hread] at hvalues
                subst hvalues
                cases result with
                | ok refused => exact ⟨rfl, rfl, Keeps.set hw (Or.inl rfl)⟩
                | error result => exact ⟨rfl, rfl, Keeps.set hw (Or.inr rfl)⟩
    | begun | acknowledged | gone => exact ⟨rfl, rfl, Keeps.refl _⟩
  · cases old with
    | folding c was rest failed =>
        cases rest with
        | nil =>
            cases failed with
            | true => exact ⟨rfl, rfl, Keeps.set hw (Or.inr rfl)⟩
            | false => simp [carryMarks, hw] at hmarks
        | cons e rest => exact ⟨rfl, rfl, Keeps.refl _⟩
    | begun | acknowledged | gone => exact ⟨rfl, rfl, Keeps.refl _⟩
  · cases old with
    | begun | acknowledged | folding | gone => exact ⟨rfl, rfl, Keeps.set hw (Or.inr rfl)⟩

theorem advertise_revisionRead (s : Cache) (layout : Bytes) (revision : Option ℕ)
    (readable : ℕ → Bool) (reachable : Bool) :
    (s.advertise layout revision readable reachable).revisionRead = s.revisionRead := by
  obtain ⟨s₁, hsame, hresult | hresult⟩ := s.advertise_tasks layout revision readable reachable
  · rw [hresult, hsame.revisionRead]
  · rw [hresult, (s₁.requestRead_revisions reachable).1, hsame.revisionRead]

/-- The mark moves only where a loop or the read of a command is marked. -/
theorem revisionRead_of_unmarked (env : Opening) (hloop : s.loopMarks a = none)
    (hcarry : s.carryMarks a = none) : (s.step env a).revisionRead = s.revisionRead := by
  have hreader : ∀ j, ((∃ reachable, a = .link j reachable) ∨ a = .connected j ∨
      (∃ look, a = .read j look) ∨ a = .walked j ∨
      (∃ raises reachable, a = .closed j raises reachable) ∨ a = .failRead j) →
      (s.readers[j]?.elim s fun r => s.readerStep env j r a).revisionRead = s.revisionRead := by
    intro j ha
    cases hr : s.readers[j]? with
    | none => rfl
    | some r => exact (readerStep_keeps env hr hloop ha).1
  have hwriter : ∀ j, (a = .acknowledge j ∨ (∃ look, a = .carry j look) ∨ a = .carried j ∨
      a = .failWrite j) →
      (s.writers[j]?.elim s fun w => s.writerStep env j w a).revisionRead = s.revisionRead := by
    intro j ha
    cases hw : s.writers[j]? with
    | none => rfl
    | some w => exact (writerStep_keeps env hw hcarry ha).1
  -- every step is one of a reader or of a writer, or looks at neither
  cases a with
  | advertise layout revision readable reachable =>
      exact s.advertise_revisionRead layout revision readable reachable
  | request reachable => exact (s.requestRead_revisions reachable).1
  | pass seconds => rfl
  | command number value coalesce =>
      simp only [step]
      split <;> rfl
  | link j reachable => exact hreader j (Or.inl ⟨reachable, rfl⟩)
  | connected j => exact hreader j (by simp)
  | read j look => exact hreader j (by simp)
  | walked j => exact hreader j (by simp)
  | closed j raises reachable => exact hreader j (by simp)
  | failRead j => exact hreader j (by simp)
  | acknowledge j => exact hwriter j (by simp)
  | carry j look => exact hwriter j (by simp)
  | carried j => exact hwriter j (by simp)
  | failWrite j => exact hwriter j (by simp)
  | confirm j look raises =>
      simp only [step]
      cases hw : s.writers[j]? with
      | none => rfl
      | some w =>
          cases w with
          | acknowledged o layouts => exact (confirm_begins env s j o layouts look raises).1
          | begun | folding | gone => rfl
  | cancelWrite j =>
      simp only [step]
      cases hw : s.writers[j]? with
      | none => rfl
      | some w => cases w <;> rfl
  | cancelRead j =>
      simp only [step]
      cases hr : s.readers[j]? with
      | none => rfl
      | some r => cases r <;> rfl

theorem advertise_revisionAdvertised (s : Cache) (layout : Bytes) (revision : Option ℕ)
    (readable : ℕ → Bool) (reachable : Bool) :
    (s.advertise layout revision readable reachable).revisionAdvertised =
      revision.or s.revisionAdvertised := by
  have hknown : ∀ s₁ : Cache, s₁.revisionAdvertised = s.revisionAdvertised →
      (s₁.noticeRevision revision reachable).revisionAdvertised =
        revision.or s.revisionAdvertised := by
    intro s₁ h
    unfold noticeRevision
    cases revision with
    | none => simpa using h
    | some r =>
        simp only
        split
        · rfl
        · split
          · rfl
          · exact (requestRead_frame _ reachable).1.revisionAdvertised
  unfold advertise
  apply hknown
  show (record _ layout revision readable).revisionAdvertised = _
  unfold record
  split <;> split <;> rfl

end Cache

namespace Turns

/-! ## The invariant -/

/-- What a read loop has fixed. -/
structure Aimed (s : Turns) (c : Capture) : Prop where
  heard : ∀ t, c.target = some t → t ∈ s.sinceLoop
  shown : c.target.isSome = true → s.cache.revisionAdvertised.isSome = true
  latest : s.cache.revisionAdvertised.toList <:+ s.sinceLoop
  upToDate : s.overtaken = false → s.sinceLoop <:+ s.sinceMark ∧
    (s.cache.revisionRead.isSome = true → c.target.isSome = true)

/-- What the read of a command has fixed. -/
structure Carried (s : Turns) (c : Capture) : Prop where
  heard : ∃ t ∈ s.sinceCarry, c.target = some t
  shown : s.cache.revisionAdvertised.isSome = true
  latest : s.cache.revisionAdvertised.toList <:+ s.sinceCarry
  upToDate : s.sinceCarry <:+ s.sinceMark

structure OrderInv (s : Turns) : Prop where
  flags : FlagsInv s
  shown : s.cache.revisionRead.isSome = true → s.cache.revisionAdvertised.isSome = true
  latest : s.cache.revisionAdvertised.toList <:+ s.sinceMark
  loop : ∀ (i : ℕ) (r : Reader) (c : Capture), s.cache.readers[i]? = some r →
    r.capture = some c → Aimed s c
  carry : ∀ (i : ℕ) (w : Writer) (c : Capture), s.cache.writers[i]? = some w →
    w.capture = some c → Carried s c
  overtaken : s.overtaken = true → ∃ r ∈ s.carried, s.cache.revisionRead = some r

/-- The records are the same. -/
structure SameRecords (s s' : Turns) : Prop where
  carried : s'.carried = s.carried
  overtaken : s'.overtaken = s.overtaken
  sinceMark : s'.sinceMark = s.sinceMark
  sinceLoop : s'.sinceLoop = s.sinceLoop
  sinceCarry : s'.sinceCarry = s.sinceCarry

variable {env : Opening} {s s' : Turns} {c : Capture} {a : CacheAct}

theorem suffix_append_append {l m : List ℕ} (h : l <:+ m) (x : List ℕ) : l ++ x <:+ m ++ x := by
  obtain ⟨t, rfl⟩ := h
  exact ⟨t, (List.append_assoc t l x).symm⟩

theorem latest_append {advertised revision : Option ℕ} {l : List ℕ}
    (h : advertised.toList <:+ l) :
    (revision.or advertised).toList <:+ l ++ revision.toList := by
  cases revision with
  | none => simpa using h
  | some r => exact List.suffix_append l [r]

/-- A step that neither marks nor aims. -/
theorem OrderInv.quiet (h : OrderInv s) (hflags : FlagsInv s') (hrecords : SameRecords s s')
    (hread : s'.cache.revisionRead = s.cache.revisionRead)
    (hadvertised : s'.cache.revisionAdvertised = s.cache.revisionAdvertised)
    (hreaders : Cache.Keeps Reader.capture s.cache.readers s'.cache.readers)
    (hwriters : Cache.Keeps Writer.capture s.cache.writers s'.cache.writers) : OrderInv s' where
  flags := hflags
  shown := by rw [hread, hadvertised]; exact h.shown
  latest := by rw [hadvertised, hrecords.sinceMark]; exact h.latest
  loop i r c hr hc := by
    obtain ⟨r₀, hr₀, hc₀⟩ := hreaders i r c hr hc
    have haimed := h.loop i r₀ c hr₀ hc₀
    refine ⟨?_, ?_, ?_, ?_⟩
    · rw [hrecords.sinceLoop]
      exact haimed.heard
    · rw [hadvertised]
      exact haimed.shown
    · rw [hadvertised, hrecords.sinceLoop]
      exact haimed.latest
    · rw [hrecords.overtaken, hrecords.sinceLoop, hrecords.sinceMark, hread]
      exact haimed.upToDate
  carry i w c hw hc := by
    obtain ⟨w₀, hw₀, hc₀⟩ := hwriters i w c hw hc
    have hcarried := h.carry i w₀ c hw₀ hc₀
    refine ⟨?_, ?_, ?_, ?_⟩
    · rw [hrecords.sinceCarry]
      exact hcarried.heard
    · rw [hadvertised]
      exact hcarried.shown
    · rw [hadvertised, hrecords.sinceCarry]
      exact hcarried.latest
    · rw [hrecords.sinceCarry, hrecords.sinceMark]
      exact hcarried.upToDate
  overtaken := by rw [hrecords.overtaken, hrecords.carried, hread]; exact h.overtaken

/-- Every loop that is alive has just fixed its target, and no command carries a read. -/
theorem OrderInv.aims (hflags : FlagsInv s')
    (hshown : s'.cache.revisionRead.isSome = true → s'.cache.revisionAdvertised.isSome = true)
    (hlatest : s'.cache.revisionAdvertised.toList <:+ s'.sinceMark)
    (haims : ∀ (i : ℕ) (r : Reader) (c : Capture), s'.cache.readers[i]? = some r →
      r.capture = some c → c.target = s'.cache.revisionAdvertised)
    (hidle : ∀ i, ¬ s'.Carrying i) (hloop : s'.sinceLoop = s'.cache.revisionAdvertised.toList)
    (hovertaken : s'.overtaken = false) : OrderInv s' where
  flags := hflags
  shown := hshown
  latest := hlatest
  loop i r c hr hc := by
    have htarget := haims i r c hr hc
    refine ⟨?_, ?_, ?_, ?_⟩
    · intro t ht
      rw [hloop, ← htarget, ht]
      exact List.mem_singleton_self t
    · rw [htarget]
      exact fun h => h
    · exact hloop ▸ List.suffix_rfl
    · rw [hloop, htarget]
      exact fun _ => ⟨hlatest, hshown⟩
  carry i w c hw hc := absurd ⟨w, hw, Writer.carries_of_capture hc⟩ (hidle i)
  overtaken h := by simp [hovertaken] at h

theorem FlagsInv.idle (h : FlagsInv s) (hidle : s.cache.reading = false) :
    (∀ (i : ℕ) (r : Reader) (c : Capture), s.cache.readers[i]? = some r → r.capture ≠ some c) ∧
      ∀ i, ¬ s.Carrying i := by
  constructor
  · intro i r c hr hc
    have hreading := h.reading.2 (Or.inl ⟨i, r, hr, Reader.alive_of_capture hc⟩)
    simp [hidle] at hreading
  · intro i hi
    have hreading := h.reading.2 (Or.inr ⟨i, hi⟩)
    simp [hidle] at hreading

/-- A read that is asked for while none is under way: the captures are those of the new loop. -/
theorem captures_of_request {s₁ : Cache} {reachable : Bool} (h : FlagsInv s)
    (hsame : s.cache.SameTasks s₁) (hidle : s.cache.reading = false) (i : ℕ) (r : Reader)
    (c : Capture) (hr : (s₁.requestRead reachable).readers[i]? = some r)
    (hc : r.capture = some c) : c.target = s₁.revisionAdvertised := by
  obtain ⟨r', hreaders, haims⟩ :=
    (s₁.requestRead_revisions reachable).2 (hsame.reading.trans hidle)
  rw [hreaders, hsame.readers] at hr
  rcases Nat.lt_trichotomy i s.cache.readers.length with hlt | rfl | hgt
  · rw [List.getElem?_append_left hlt] at hr
    exact absurd hc ((h.idle hidle).1 i r c hr)
  · rw [List.getElem?_concat_length] at hr
    obtain rfl := Option.some.inj hr
    exact haims c hc
  · rw [List.getElem?_eq_none (by simp only [List.length_append, List.length_singleton]; omega)]
      at hr
    simp at hr

/-- A read is asked for, with the revisions heard or not. -/
theorem OrderInv.asked (h : OrderInv s) (hflags : FlagsInv s') {s₁ : Cache} {reachable : Bool}
    (hsame : s.cache.SameTasks s₁) (hcache : s'.cache = s₁ ∨ s'.cache = s₁.requestRead reachable)
    {revision : Option ℕ}
    (hadvertised : s'.cache.revisionAdvertised = revision.or s.cache.revisionAdvertised)
    (hmark : s'.sinceMark = s.sinceMark ++ revision.toList)
    (hcarry : s'.sinceCarry = s.sinceCarry ++ revision.toList) (hcarried : s'.carried = s.carried)
    (hbusy : s.cache.reading = true →
      s'.sinceLoop = s.sinceLoop ++ revision.toList ∧ s'.overtaken = s.overtaken)
    (hidle : s.cache.reading = false →
      s'.sinceLoop = s'.cache.revisionAdvertised.toList ∧ s'.overtaken = false) : OrderInv s' := by
  have hread : s'.cache.revisionRead = s.cache.revisionRead := by
    rcases hcache with hcache | hcache
    · rw [hcache, hsame.revisionRead]
    · rw [hcache, (s₁.requestRead_revisions reachable).1, hsame.revisionRead]
  have hwriters : s'.cache.writers = s.cache.writers := by
    rcases hcache with hcache | hcache
    · rw [hcache, hsame.writers]
    · rw [hcache, (s₁.requestRead_keeps reachable).1, hsame.writers]
  have hsome : s.cache.revisionAdvertised.isSome = true →
      s'.cache.revisionAdvertised.isSome = true := by
    intro hsome
    rw [hadvertised, Option.isSome_or, hsome, Bool.or_true]
  have hshown : s'.cache.revisionRead.isSome = true →
      s'.cache.revisionAdvertised.isSome = true := by
    rw [hread]
    exact fun hmarked => hsome (h.shown hmarked)
  have hlatest : s'.cache.revisionAdvertised.toList <:+ s'.sinceMark := by
    rw [hadvertised, hmark]
    exact latest_append h.latest
  -- a loop at work goes on with what it has fixed; without one the read begins here and
  -- aims at what is advertised now
  cases hreading : s.cache.reading with
  | true =>
      obtain ⟨hloop, hovertaken⟩ := hbusy hreading
      have hreaders : s'.cache.readers = s.cache.readers := by
        rcases hcache with hcache | hcache
        · rw [hcache, hsame.readers]
        · rw [hcache, (s₁.requestRead_keeps reachable).2 (hsame.reading.trans hreading),
            hsame.readers]
      refine ⟨hflags, hshown, hlatest, ?_, ?_, ?_⟩
      · intro i r c hr hc
        have haimed := h.loop i r c (hreaders ▸ hr) hc
        refine ⟨?_, fun ht => hsome (haimed.shown ht), ?_, ?_⟩
        · intro t ht
          rw [hloop]
          exact List.mem_append_left _ (haimed.heard t ht)
        · rw [hadvertised, hloop]
          exact latest_append haimed.latest
        · rw [hovertaken, hloop, hmark, hread]
          intro hnot
          obtain ⟨hsuffix, htarget⟩ := haimed.upToDate hnot
          exact ⟨suffix_append_append hsuffix _, htarget⟩
      · intro i w c hw hc
        have hcarried := h.carry i w c (hwriters ▸ hw) hc
        obtain ⟨t, ht, htarget⟩ := hcarried.heard
        refine ⟨⟨t, ?_, htarget⟩, hsome hcarried.shown, ?_, ?_⟩
        · rw [hcarry]
          exact List.mem_append_left _ ht
        · rw [hadvertised, hcarry]
          exact latest_append hcarried.latest
        · rw [hcarry, hmark]
          exact suffix_append_append hcarried.upToDate _
      · rw [hovertaken, hcarried, hread]
        exact h.overtaken
  | false =>
      obtain ⟨hloop, hovertaken⟩ := hidle hreading
      refine OrderInv.aims hflags hshown hlatest ?_ ?_ hloop hovertaken
      · -- a reader fixes its target where the loop starts, so only the new one aims
        intro i r c hr hc
        rcases hcache with hcache | hcache
        · rw [hcache, hsame.readers] at hr
          exact absurd hc ((h.flags.idle hreading).1 i r c hr)
        · rw [hcache] at hr ⊢
          rw [(Cache.requestRead_frame s₁ reachable).1.revisionAdvertised]
          exact captures_of_request h.flags hsame hreading i r c hr hc
      · rintro i ⟨w, hw, hcarries⟩
        exact (h.flags.idle hreading).2 i ⟨w, hwriters ▸ hw, hcarries⟩

/-- Only the command inside carries a read. -/
theorem FlagsInv.carrying_of_capture (h : FlagsInv s) {i : ℕ} {w : Writer}
    (hw : s.cache.writers[i]? = some w) (hc : w.capture = some c) :
    s.inside = some (.writer i) :=
  h.inside_of_carrying ⟨w, hw, Writer.carries_of_capture hc⟩

/-- A loop stores its target and aims anew, or ends. -/
theorem OrderInv.loopMarks (h : OrderInv s) (hallows : s.allows a = true)
    (hmarks : s.cache.loopMarks a = some c) (hflags : FlagsInv (s.take env a))
    (hadvertised : (s.cache.step env a).revisionAdvertised = s.cache.revisionAdvertised)
    (hrecord : s.record (s.cache.step env a) a =
      { s with sinceMark := s.sinceLoop }.aim (s.cache.step env a)) :
    OrderInv (s.take env a) := by
  obtain ⟨hread, hwriters, i, old, r, hold, hc, halive, hreaders, haims⟩ :=
    Cache.revisions_of_loopMarks env hmarks
  have haimed := h.loop i old c hold hc
  have hcache : (s.take env a).cache = s.cache.step env a := rfl
  have hmark : (s.take env a).sinceMark = s.sinceLoop := by
    show (s.record (s.cache.step env a) a).sinceMark = _
    rw [hrecord]
    rfl
  have hloop : (s.take env a).sinceLoop = (s.cache.step env a).revisionAdvertised.toList := by
    show (s.record (s.cache.step env a) a).sinceLoop = _
    rw [hrecord]
    rfl
  have hovertaken : (s.take env a).overtaken = false := by
    show (s.record (s.cache.step env a) a).overtaken = _
    rw [hrecord]
    rfl
  refine OrderInv.aims hflags ?_ ?_ ?_ ?_ hloop hovertaken
  · rw [hcache, hread, hadvertised]
    exact haimed.shown
  · rw [hcache, hadvertised, hmark]
    exact haimed.latest
  · intro j r' c' hr' hc'
    rw [hcache] at hr' ⊢
    rw [hadvertised]
    rw [hreaders] at hr'
    by_cases hj : i = j
    · subst hj
      rw [List.getElem?_set_self (List.getElem?_eq_some_iff.1 hold).1] at hr'
      obtain rfl := Option.some.inj hr'
      exact haims c' hc'
    · rw [List.getElem?_set_ne hj] at hr'
      exact absurd (h.flags.single i j ⟨old, hold, halive⟩
        ⟨r', hr', Reader.alive_of_capture hc'⟩) hj
  · -- a loop marks only from the link, where no command can be
    rintro j ⟨w, hw, hcarries⟩
    have hinside := h.flags.inside_of_carrying ⟨w, hwriters ▸ hw, hcarries⟩
    cases a with
    | link k reachable => simp [allows, hinside] at hallows
    | closed k raises reachable => simp [allows, hinside] at hallows
    | advertise | request | pass | command | acknowledge | confirm | carry | carried | failWrite
    | cancelWrite | connected | read | walked | failRead | cancelRead =>
        simp [Cache.loopMarks] at hmarks

/-- The read of a command is marked. -/
theorem OrderInv.carryMarks (h : OrderInv s)
    (hmarks : s.cache.carryMarks a = some c) (hflags : FlagsInv (s.take env a))
    (hadvertised : (s.cache.step env a).revisionAdvertised = s.cache.revisionAdvertised)
    (hrecord : s.record (s.cache.step env a) a =
      { s with
        sinceMark := s.sinceCarry
        carried := s.carried ++ c.target.toList
        overtaken := true }) : OrderInv (s.take env a) := by
  obtain ⟨hread, hreaders, i, w, hw, hc, hwriters⟩ := Cache.revisions_of_carryMarks env hmarks
  have hcarried := h.carry i w c hw hc
  obtain ⟨t, ht, htarget⟩ := hcarried.heard
  have hcache : (s.take env a).cache = s.cache.step env a := rfl
  have hmark : (s.take env a).sinceMark = s.sinceCarry := by
    show (s.record (s.cache.step env a) a).sinceMark = _
    rw [hrecord]
  have hloop : (s.take env a).sinceLoop = s.sinceLoop := by
    show (s.record (s.cache.step env a) a).sinceLoop = _
    rw [hrecord]
  have hovertaken : (s.take env a).overtaken = true := by
    show (s.record (s.cache.step env a) a).overtaken = _
    rw [hrecord]
  have hlist : (s.take env a).carried = s.carried ++ c.target.toList := by
    show (s.record (s.cache.step env a) a).carried = _
    rw [hrecord]
  refine ⟨hflags, ?_, ?_, ?_, ?_, ?_⟩
  · rw [hcache, hadvertised]
    exact fun _ => hcarried.shown
  · rw [hcache, hadvertised, hmark]
    exact hcarried.latest
  · intro j r c' hr hc'
    have haimed := h.loop j r c' (hreaders ▸ hr) hc'
    refine ⟨?_, ?_, ?_, ?_⟩
    · rw [hloop]
      exact haimed.heard
    · rw [hcache, hadvertised]
      exact haimed.shown
    · rw [hcache, hadvertised, hloop]
      exact haimed.latest
    · simp [hovertaken]
  · intro j w' c' hw' hc'
    rw [hcache, hwriters] at hw'
    -- the command that marks has ended its read, and a second one would have to be inside
    -- as well
    by_cases hj : i = j
    · subst hj
      rw [List.getElem?_set_self (List.getElem?_eq_some_iff.1 hw).1] at hw'
      obtain rfl := Option.some.inj hw'
      simp [Writer.capture] at hc'
    · rw [List.getElem?_set_ne hj] at hw'
      have hinside := (h.flags.carrying_of_capture hw hc).symm.trans
        (h.flags.carrying_of_capture hw' hc')
      exact absurd (by simpa using hinside) hj
  · intro _
    rw [hlist, hcache, hread, htarget]
    exact ⟨t, by simp, rfl⟩

/-- A command confirms its write, and may begin to carry a read. -/
theorem OrderInv.confirm (h : OrderInv s) {i : ℕ} {look : Look} {raises : Bool} {o : Order}
    {layouts : ℕ} (hw : s.cache.writers[i]? = some (.acknowledged o layouts))
    (hflags : FlagsInv (s.take env (.confirm i look raises))) :
    OrderInv (s.take env (.confirm i look raises)) := by
  have hstep : s.cache.step env (.confirm i look raises) =
      s.cache.confirm env i o layouts look raises := by
    simp only [Cache.step, hw, Option.elim_some, Cache.writerStep]
  have hcache : (s.take env (.confirm i look raises)).cache =
      s.cache.confirm env i o layouts look raises := hstep
  have hrecord : s.record (s.cache.step env (.confirm i look raises)) (.confirm i look raises) =
      { s with sinceCarry := s.cache.revisionAdvertised.toList } := by
    simp only [record, hw]
  have hcarry : (s.take env (.confirm i look raises)).sinceCarry =
      s.cache.revisionAdvertised.toList := (congrArg sinceCarry hrecord :)
  have hmark : (s.take env (.confirm i look raises)).sinceMark = s.sinceMark :=
    (congrArg sinceMark hrecord :)
  have hloop : (s.take env (.confirm i look raises)).sinceLoop = s.sinceLoop :=
    (congrArg sinceLoop hrecord :)
  have hovertaken : (s.take env (.confirm i look raises)).overtaken = s.overtaken :=
    (congrArg Turns.overtaken hrecord :)
  have hcarried : (s.take env (.confirm i look raises)).carried = s.carried :=
    (congrArg Turns.carried hrecord :)
  have hinside : s.inside = some (.writer i) := h.flags.answered i _ hw rfl
  have hadvertised :=
    (Cache.confirm_stores env s.cache i o layouts look raises).1.revisionAdvertised
  obtain ⟨hread, hreaders, w, hwriters, hbegins⟩ :=
    Cache.confirm_begins env s.cache i o layouts look raises
  refine ⟨hflags, ?_, ?_, ?_, ?_, ?_⟩
  · rw [hcache, hread, hadvertised]
    exact h.shown
  · rw [hcache, hadvertised, hmark]
    exact h.latest
  · intro j r c hr hc
    have haimed := h.loop j r c (hreaders ▸ hcache ▸ hr) hc
    refine ⟨?_, ?_, ?_, ?_⟩
    · rw [hloop]
      exact haimed.heard
    · rw [hcache, hadvertised]
      exact haimed.shown
    · rw [hcache, hadvertised, hloop]
      exact haimed.latest
    · rw [hovertaken, hloop, hmark, hcache, hread]
      exact haimed.upToDate
  · intro j w' c hw' hc
    rw [hcache, hwriters] at hw'
    -- the read that begins is of what is advertised now; nobody else can be carrying one,
    -- as the command is inside
    by_cases hj : i = j
    · subst hj
      rw [List.getElem?_set_self (List.getElem?_eq_some_iff.1 hw).1] at hw'
      obtain rfl := Option.some.inj hw'
      obtain ⟨htarget, hsome⟩ := hbegins c hc
      obtain ⟨t, ht⟩ := Option.isSome_iff_exists.1 hsome
      refine ⟨⟨t, ?_, htarget.trans ht⟩, ?_, ?_, ?_⟩
      · rw [hcarry, ht]
        exact List.mem_singleton_self t
      · rw [hcache, hadvertised]
        exact hsome
      · exact hcarry ▸ hcache ▸ hadvertised ▸ List.suffix_rfl
      · rw [hcarry, hmark]
        exact h.latest
    · rw [List.getElem?_set_ne hj] at hw'
      have hother := h.flags.carrying_of_capture hw' hc
      rw [hinside] at hother
      exact absurd (by simpa using hother) hj
  · rw [hovertaken, hcarried, hcache, hread]
    exact h.overtaken

/-- A step of a reader or a command that marks nothing. -/
theorem OrderInv.unmarked (h : OrderInv s) (hflags : FlagsInv (s.take env a))
    (hadvertised : (s.cache.step env a).revisionAdvertised = s.cache.revisionAdvertised)
    (hrecord : s.record (s.cache.step env a) a = s)
    (hread : (s.cache.step env a).revisionRead = s.cache.revisionRead)
    (hreaders : Cache.Keeps Reader.capture s.cache.readers (s.cache.step env a).readers)
    (hwriters : Cache.Keeps Writer.capture s.cache.writers (s.cache.step env a).writers) :
    OrderInv (s.take env a) := by
  refine h.quiet hflags ?_ hread hadvertised hreaders hwriters
  exact ⟨(congrArg Turns.carried hrecord :), (congrArg Turns.overtaken hrecord :),
    (congrArg sinceMark hrecord :), (congrArg sinceLoop hrecord :), (congrArg sinceCarry hrecord :)⟩

theorem OrderInv.takeReader (h : OrderInv s) (hflags : FlagsInv (s.take env a))
    (hallows : s.allows a = true) {i : ℕ}
    (ha : (∃ reachable, a = .link i reachable) ∨ a = .connected i ∨ (∃ look, a = .read i look) ∨
      a = .walked i ∨ (∃ raises reachable, a = .closed i raises reachable) ∨ a = .failRead i) :
    OrderInv (s.take env a) := by
  have hadvertised : (s.cache.step env a).revisionAdvertised = s.cache.revisionAdvertised := by
    refine (Cache.step_stores env s.cache a ?_).1.revisionAdvertised
    obtain ⟨_, rfl⟩ | rfl | ⟨_, rfl⟩ | rfl | ⟨_, _, rfl⟩ | rfl := ha <;> simp
  have hstep : s.cache.step env a =
      s.cache.readers[i]?.elim s.cache fun r => s.cache.readerStep env i r a := by
    obtain ⟨_, rfl⟩ | rfl | ⟨_, rfl⟩ | rfl | ⟨_, _, rfl⟩ | rfl := ha <;> rfl
  have hrecord : (∀ c, s.cache.loopMarks a = some c → s.record (s.cache.step env a) a =
        { s with sinceMark := s.sinceLoop }.aim (s.cache.step env a)) ∧
      (s.cache.loopMarks a = none → s.record (s.cache.step env a) a = s) := by
    obtain ⟨_, rfl⟩ | rfl | ⟨_, rfl⟩ | rfl | ⟨_, _, rfl⟩ | rfl := ha <;>
      exact ⟨fun c hc => by simp only [record, hc], fun hc => by
        simp only [record, hc, Cache.carryMarks]⟩
  cases hmarks : s.cache.loopMarks a with
  | some c => exact h.loopMarks hallows hmarks hflags hadvertised (hrecord.1 c hmarks)
  | none =>
      cases hr : s.cache.readers[i]? with
      | none =>
          rw [hr, Option.elim_none] at hstep
          exact h.unmarked hflags hadvertised (hrecord.2 hmarks) (by rw [hstep])
            (by rw [hstep]; exact Cache.Keeps.refl _) (by rw [hstep]; exact Cache.Keeps.refl _)
      | some old =>
          rw [hr, Option.elim_some] at hstep
          obtain ⟨hread, hwriters, hkeeps⟩ := Cache.readerStep_keeps env hr hmarks ha
          rw [← hstep] at hread hwriters hkeeps
          exact h.unmarked hflags hadvertised (hrecord.2 hmarks) hread hkeeps
            (hwriters ▸ Cache.Keeps.refl _)

theorem OrderInv.takeWriter (h : OrderInv s) (hflags : FlagsInv (s.take env a)) {i : ℕ}
    (ha : a = .acknowledge i ∨ (∃ look, a = .carry i look) ∨ a = .carried i ∨ a = .failWrite i) :
    OrderInv (s.take env a) := by
  have hadvertised : (s.cache.step env a).revisionAdvertised = s.cache.revisionAdvertised := by
    refine (Cache.step_stores env s.cache a ?_).1.revisionAdvertised
    obtain rfl | ⟨_, rfl⟩ | rfl | rfl := ha <;> simp
  have hstep : s.cache.step env a =
      s.cache.writers[i]?.elim s.cache fun w => s.cache.writerStep env i w a := by
    obtain rfl | ⟨_, rfl⟩ | rfl | rfl := ha <;> rfl
  have hrecord : (∀ c, s.cache.carryMarks a = some c → s.record (s.cache.step env a) a =
        { s with
          sinceMark := s.sinceCarry
          carried := s.carried ++ c.target.toList
          overtaken := true }) ∧
      (s.cache.carryMarks a = none → s.record (s.cache.step env a) a = s) := by
    obtain rfl | ⟨_, rfl⟩ | rfl | rfl := ha <;>
      exact ⟨fun c hc => by simp only [record, hc, Cache.loopMarks], fun hc => by
        simp only [record, hc, Cache.loopMarks]⟩
  cases hmarks : s.cache.carryMarks a with
  | some c => exact h.carryMarks hmarks hflags hadvertised (hrecord.1 c hmarks)
  | none =>
      cases hw : s.cache.writers[i]? with
      | none =>
          rw [hw, Option.elim_none] at hstep
          exact h.unmarked hflags hadvertised (hrecord.2 hmarks) (by rw [hstep])
            (by rw [hstep]; exact Cache.Keeps.refl _) (by rw [hstep]; exact Cache.Keeps.refl _)
      | some old =>
          rw [hw, Option.elim_some] at hstep
          obtain ⟨hread, hreaders, hkeeps⟩ := Cache.writerStep_keeps env hw hmarks ha
          rw [← hstep] at hread hreaders hkeeps
          exact h.unmarked hflags hadvertised (hrecord.2 hmarks) hread
            (hreaders ▸ Cache.Keeps.refl _) hkeeps

theorem OrderInv.take (h : OrderInv s) (hallows : s.allows a = true) :
    OrderInv (s.take env a) := by
  have hflags : FlagsInv (s.take env a) := h.flags.take hallows
  cases a with
  | advertise layout revision readable reachable =>
      obtain ⟨s₁, hsame, hcache⟩ := s.cache.advertise_tasks layout revision readable reachable
      -- an advertisement records the revision heard and may ask for a read
      refine h.asked hflags hsame hcache
        (s.cache.advertise_revisionAdvertised layout revision readable reachable) ?_ ?_ ?_ ?_ ?_
      all_goals simp only [Turns.take, record]
      · split <;> rfl
      · split <;> rfl
      · split <;> rfl
      · intro hreading
        simp [hreading]
      · intro hreading
        simp only [hreading, Bool.false_eq_true, if_false]
        exact ⟨rfl, rfl⟩
  | request reachable =>
      -- a request is an advertisement that brings no revision
      have hsame : s.cache.SameTasks s.cache := ⟨rfl, rfl, rfl, rfl, rfl⟩
      have hadvertised : (s.cache.requestRead reachable).revisionAdvertised =
          Option.or none s.cache.revisionAdvertised :=
        (Cache.requestRead_frame s.cache reachable).1.revisionAdvertised
      refine h.asked hflags hsame (Or.inr rfl) hadvertised ?_ ?_ ?_ ?_ ?_
      all_goals simp only [Turns.take, record]
      · split <;> simp [aim]
      · split <;> simp [aim]
      · split <;> rfl
      · intro hreading
        simp [hreading]
      · intro hreading
        simp only [hreading, Bool.false_eq_true, if_false]
        exact ⟨rfl, rfl⟩
  | pass seconds =>
      exact h.unmarked hflags rfl rfl rfl (Cache.Keeps.refl _) (Cache.Keeps.refl _)
  | command number value coalesce =>
      cases hentry : s.cache.entry number with
      | none =>
          have hstep : s.cache.step env (.command number value coalesce) = s.cache := by
            simp only [Cache.step, hentry]
          refine h.unmarked hflags ?_ rfl ?_ ?_ ?_
          all_goals rw [hstep]
          · exact Cache.Keeps.refl _
          · exact Cache.Keeps.refl _
      | some entry =>
          have hstep : s.cache.step env (.command number value coalesce) =
              { s.cache with writers := s.cache.writers ++
                [.begun ⟨number, value, coalesce, entry, s.cache.valueOf number⟩] } := by
            simp only [Cache.step, hentry]
          refine h.unmarked hflags ?_ rfl ?_ ?_ ?_
          all_goals rw [hstep]
          · exact Cache.Keeps.refl _
          · exact Cache.Keeps.append _ rfl
  | link j reachable => exact h.takeReader hflags hallows (Or.inl ⟨reachable, rfl⟩)
  | connected j => exact h.takeReader (i := j) hflags hallows (by simp)
  | read j look => exact h.takeReader (i := j) hflags hallows (by simp)
  | walked j => exact h.takeReader (i := j) hflags hallows (by simp)
  | closed j raises reachable => exact h.takeReader (i := j) hflags hallows (by simp)
  | failRead j => exact h.takeReader (i := j) hflags hallows (by simp)
  | acknowledge j => exact h.takeWriter hflags (Or.inl rfl)
  | carry j look => exact h.takeWriter (i := j) hflags (by simp)
  | carried j => exact h.takeWriter (i := j) hflags (by simp)
  | failWrite j => exact h.takeWriter (i := j) hflags (by simp)
  | confirm j look raises =>
      -- only a command that has its acknowledgement confirms; any other is left as it is
      by_cases hacknowledged :
          ∃ o layouts, s.cache.writers[j]? = some (.acknowledged o layouts)
      · obtain ⟨o, layouts, hw⟩ := hacknowledged
        exact h.confirm hw hflags
      · have hstep : s.cache.step env (.confirm j look raises) = s.cache := by
          simp only [Cache.step]
          cases hw : s.cache.writers[j]? with
          | none => rfl
          | some w =>
              cases w with
              | acknowledged o layouts => exact absurd ⟨o, layouts, hw⟩ hacknowledged
              | begun | folding | gone => rfl
        have hrecord : s.record (s.cache.step env (.confirm j look raises))
            (.confirm j look raises) = s := by
          simp only [record]
          split
          · rename_i o layouts hw
            exact absurd ⟨o, layouts, hw⟩ hacknowledged
          · rfl
        refine h.unmarked hflags ?_ hrecord ?_ ?_ ?_
        all_goals rw [hstep]
        · exact Cache.Keeps.refl _
        · exact Cache.Keeps.refl _
  | cancelWrite j => simp [allows] at hallows
  | cancelRead j => simp [allows] at hallows

/-- Coming and going leaves the cache and the records alone. -/
theorem step_outside (env : Opening) (s : Turns) {a : TurnAct} (ha : ∀ a', a ≠ .act a') :
    (s.step env a).cache = s.cache ∧ SameRecords s (s.step env a) := by
  cases a with
  | act a => exact absurd rfl (ha a)
  | enter j | enterOther | leaveOther =>
      simp only [Turns.step]
      split <;> exact ⟨rfl, rfl, rfl, rfl, rfl, rfl⟩
  | send j | leave j =>
      simp only [Turns.step]
      split
      · split <;> exact ⟨rfl, rfl, rfl, rfl, rfl, rfl⟩
      · exact ⟨rfl, rfl, rfl, rfl, rfl, rfl⟩

theorem OrderInv.step (h : OrderInv s) (a : TurnAct) : OrderInv (s.step env a) := by
  have hflags : FlagsInv (s.step env a) := h.flags.step a
  by_cases hact : ∃ a', a = .act a'
  · obtain ⟨a, rfl⟩ := hact
    simp only [Turns.step]
    split
    · rename_i hallows
      exact h.take hallows
    · exact h
  · push Not at hact
    obtain ⟨hcache, hrecords⟩ := step_outside env s hact
    refine h.quiet hflags hrecords ?_ ?_ ?_ ?_
    all_goals rw [hcache]
    · exact Cache.Keeps.refl _
    · exact Cache.Keeps.refl _

theorem orderInv_start (remembered : Option (Bytes × Option ℕ)) (readable : ℕ → Bool) :
    OrderInv (start remembered readable) where
  flags := flagsInv_start remembered readable
  shown := by simp [start, Cache.start]
  latest := by simp [start, Cache.start]
  loop := by simp [start, Cache.start]
  carry := by simp [start, Cache.start]
  overtaken := by simp [start]

/-! ## Standing down -/

/-- The revision that is advertised has been read on a command's connection. -/
def ReadByCommand (s : Turns) : Prop := ∃ r ∈ s.carried, s.cache.revisionAdvertised = some r

instance (s : Turns) : Decidable s.ReadByCommand :=
  inferInstanceAs (Decidable (∃ r ∈ s.carried, _))

/-- A loop that gets the link after a command has read what is advertised ends there. -/
def StandsDown (env : Opening) (s : Turns) (a : TurnAct) : Prop :=
  ∀ i reachable c attempt, a = .act (.link i reachable) → s.inside = none →
    s.cache.readers[i]? = some (.queued c attempt) → s.cache.revisionIsRead = true →
    s.ReadByCommand → (s.step env a).cache.readers[i]? = some .gone

/-- The mark moves to what has not been advertised since the revision that was marked. -/
def GoesBack (s s' : Turns) : Prop :=
  s.cache.revisionRead.isSome = true ∧ s'.cache.revisionRead ≠ s.cache.revisionRead ∧
    ∀ t ∈ s.sinceMark, s'.cache.revisionRead ≠ some t

instance (s s' : Turns) : Decidable (GoesBack s s') :=
  inferInstanceAs (Decidable (_ = true ∧ _ ≠ _ ∧ ∀ t ∈ s.sinceMark, _))

/-- A loop that stands down for a command set out for what is advertised; and where a command's
read has been marked since a loop set out, what the loop has read is advertised or marked. -/
def timely (s : Turns) : TurnAct → Bool
  | .act (.link i reachable) =>
      match s.cache.loopMarks (.link i reachable) with
      | some c => s.inside.isSome || !decide s.ReadByCommand ||
          c.target = s.cache.revisionAdvertised
      | none => true
  | .act (.closed i raises reachable) =>
      match s.cache.loopMarks (.closed i raises reachable) with
      | some c => !s.overtaken || c.target = s.cache.revisionAdvertised ||
          c.target = s.cache.revisionRead
      | none => true
  | _ => true

theorem OrderInv.marked_since (h : OrderInv s) {i : ℕ} {r : Reader}
    (hr : s.cache.readers[i]? = some r) (hc : r.capture = some c) (hnot : s.overtaken = false)
    (hmarked : s.cache.revisionRead.isSome = true) : ∃ t ∈ s.sinceMark, c.target = some t := by
  have haimed := h.loop i r c hr hc
  obtain ⟨hsuffix, htarget⟩ := haimed.upToDate hnot
  obtain ⟨t, ht⟩ := Option.isSome_iff_exists.1 (htarget hmarked)
  exact ⟨t, hsuffix.subset (haimed.heard t ht), ht⟩

theorem OrderInv.advertised_since (h : OrderInv s) {r : ℕ}
    (hr : s.cache.revisionAdvertised = some r) : r ∈ s.sinceMark := by
  have hlatest := h.latest
  rw [hr] at hlatest
  exact hlatest.subset (List.mem_singleton_self r)

theorem OrderInv.not_goesBack (h : OrderInv s) {a : TurnAct} (htimely : timely s a = true) :
    ¬ GoesBack s (s.step env a) := by
  rintro ⟨hmarked, hmoves, hnone⟩
  by_cases hact : ∃ a', a = .act a'
  swap
  · push Not at hact
    exact hmoves (congrArg Cache.revisionRead (step_outside env s hact).1)
  obtain ⟨a, rfl⟩ := hact
  cases hallows : s.allows a with
  | false => exact hmoves (by simp only [Turns.step, hallows, Bool.false_eq_true, if_false])
  | true =>
      have hcache : (s.step env (.act a)).cache = s.cache.step env a := by
        simp only [Turns.step, hallows, if_true]
        rfl
      rw [hcache] at hmoves hnone
      -- a mark is a loop's or a command's; a command's target has been advertised since
      -- the last mark
      cases hloop : s.cache.loopMarks a with
      | some c =>
          obtain ⟨hread, -, i, old, r, hold, hc, -⟩ := Cache.revisions_of_loopMarks env hloop
          -- a loop that nobody has overtaken aims at what was advertised since the mark
          have hnot : s.overtaken = true := by
            by_contra hnot
            obtain ⟨t, ht, htarget⟩ := h.marked_since hold hc (by simpa using hnot) hmarked
            exact hnone t ht (hread.trans htarget)
          have hadvertised : c.target ≠ s.cache.revisionAdvertised := by
            intro htarget
            obtain ⟨r', hr'⟩ := Option.isSome_iff_exists.1 (h.shown hmarked)
            refine hnone r' (h.advertised_since hr') ?_
            calc (s.cache.step env a).revisionRead
                = c.target := hread
              _ = s.cache.revisionAdvertised := htarget
              _ = some r' := hr'
          have hstored : c.target ≠ s.cache.revisionRead := fun htarget =>
            hmoves (hread.trans htarget)
          cases a with
          | link j reachable =>
              -- it stands down because what is advertised is marked, and by `h.overtaken`
              -- a command has marked it: this is the case `timely` rules out
              have hisRead : s.cache.revisionAdvertised = s.cache.revisionRead := by
                simp only [Cache.loopMarks] at hloop
                split at hloop
                · split at hloop
                  · rename_i hisRead
                    simp only [Cache.revisionIsRead, Bool.and_eq_true, decide_eq_true_eq]
                      at hisRead
                    exact hisRead.2
                  · simp at hloop
                · simp at hloop
              obtain ⟨r', hmem, hr'⟩ := h.overtaken hnot
              have hcommand : s.ReadByCommand := ⟨r', hmem, hisRead.trans hr'⟩
              have hnobody : s.inside.isSome = false := by
                simpa [allows] using hallows
              simp [timely, hloop, hcommand, hnobody, hadvertised] at htimely
          | closed j raises reachable =>
              simp [timely, hloop, hnot, hadvertised, hstored] at htimely
          | advertise | request | pass | command | acknowledge | confirm | carry | carried
          | failWrite | cancelWrite | connected | read | walked | failRead | cancelRead =>
              simp [Cache.loopMarks] at hloop
      | none =>
          cases hcarry : s.cache.carryMarks a with
          | some c =>
              obtain ⟨hread, -, i, w, hw, hc, -⟩ := Cache.revisions_of_carryMarks env hcarry
              have hcarried := h.carry i w c hw hc
              obtain ⟨t, ht, htarget⟩ := hcarried.heard
              exact hnone t (hcarried.upToDate.subset ht) (hread.trans htarget)
          | none => exact hmoves (Cache.revisionRead_of_unmarked env hloop hcarry)

theorem stands_down_of_timely {a : TurnAct} (htimely : timely s a = true) :
    StandsDown env s a := by
  rintro i reachable c attempt rfl hnobody hr hread hcommand
  have htarget : c.target = s.cache.revisionAdvertised := by
    simpa [timely, Cache.loopMarks, hr, hread, hnobody, hcommand] using htimely
  have hlt : i < s.cache.readers.length := (List.getElem?_eq_some_iff.1 hr).1
  have hcache : (s.step env (.act (.link i reachable))).cache =
      s.cache.loopDone i c.target s.cache.markedIn reachable := by
    simp only [Turns.step, allows, hnobody, Option.isNone_none, if_true, take, Cache.step, hr,
      Option.elim_some, Cache.readerStep, hread]
  rw [hcache, htarget]
  simp only [Cache.loopDone, Cache.mark, if_true, Cache.setReader]
  exact List.getElem?_set_self hlt

/-- In every run in which the loops are in time, a loop that gets the link after a command has read
the revision ends there, and the mark never goes back. -/
theorem queued_read_stands_down (env : Opening) (remembered : Option (Bytes × Option ℕ))
    (readable : ℕ → Bool) (acts : List TurnAct)
    (htimely : Runs.Along (step env) (fun s a => timely s a = true) (start remembered readable)
      acts) :
    Runs.Along (step env) (fun s a => StandsDown env s a ∧ ¬ GoesBack s (s.step env a))
      (start remembered readable) acts := by
  have hkeeps : ∀ s a, OrderInv s → timely s a = true → OrderInv (s.step env a) :=
    fun s a h _ => h.step a
  have hsupply : ∀ s a, OrderInv s → timely s a = true →
      StandsDown env s a ∧ ¬ GoesBack s (s.step env a) :=
    fun s a h ha => ⟨stands_down_of_timely ha, h.not_goesBack ha⟩
  exact htimely.strengthen hkeeps hsupply (orderInv_start remembered readable)

/-- A loop sets out for revision 5 while a command is on the link, and waits.  The revision moves
to 6, which the command reads; the loop that stands down for it marks 5. -/
theorem mark_goes_back :
    ¬ Runs.Along (step Cache.sampleOpening)
      (fun s a => StandsDown Cache.sampleOpening s a ∧
        ¬ GoesBack s (s.step Cache.sampleOpening a))
      (start none fun _ => true)
      ([.act (.advertise [0x1E, 0x10] (some 4) (fun _ => true) true), .act (.link 0 true),
        .act (.connected 0), .act (.read 0 (.answer [0x1E, 0x01])),
        .act (.read 0 (.answer [0x10, 0x00])), .act (.walked 0), .act (.closed 0 false true),
        .act (.command 1 [0x00] true), .enter 0,
        .act (.advertise [0x1E, 0x10] (some 5) (fun _ => true) true), .send 0,
        .act (.advertise [0x1E, 0x10] (some 6) (fun _ => true) true), .act (.acknowledge 0),
        .act (.confirm 0 (.answer [0x1E, 0x00]) false), .act (.carry 0 (.answer [0x10, 0x01])),
        .act (.carried 0), .leave 0] ++ [.act (.link 1 true)]) := by
  intro halong
  obtain ⟨-, -, hstays⟩ := Runs.along_concat.1 halong
  exact hstays (by decide)

/-- The same with one revision: the loop ends without a connection. -/
theorem queued_read_stands_down_sample :
    Runs.Along (step Cache.sampleOpening)
      (fun s a => StandsDown Cache.sampleOpening s a ∧
        ¬ GoesBack s (s.step Cache.sampleOpening a))
      (start none fun _ => true)
      [.act (.advertise [0x1E, 0x10] none (fun _ => true) true), .act (.command 1 [0x00] true),
        .enter 0, .act (.advertise [0x1E, 0x10] (some 5) (fun _ => true) true), .send 0,
        .act (.acknowledge 0), .act (.confirm 0 (.answer [0x1E, 0x00]) false),
        .act (.carry 0 (.answer [0x10, 0x01])), .act (.carried 0), .leave 0,
        .act (.link 0 true)] :=
  queued_read_stands_down Cache.sampleOpening none _ _ (by decide)

/-- A loop that set out for another revision does not end: it aims anew and waits once more. -/
theorem overtaken_read_waits_again {i : ℕ} {attempt : ℕ} {d : Declaration}
    (hnobody : s.inside = none) (hr : s.cache.readers[i]? = some (.queued c attempt))
    (hread : s.cache.revisionIsRead = true) (htarget : c.target ≠ s.cache.revisionAdvertised)
    (hd : s.cache.declaration = some d) :
    (s.step env (.act (.link i true))).cache.revisionRead = c.target ∧
      (s.step env (.act (.link i true))).cache.readers[i]? =
        some (.queued ⟨s.cache.revisionAdvertised, d, s.cache.layouts⟩ 1) := by
  have hlt : i < s.cache.readers.length := (List.getElem?_eq_some_iff.1 hr).1
  have hcache : (s.step env (.act (.link i true))).cache =
      s.cache.loopDone i c.target s.cache.markedIn true := by
    simp only [Turns.step, allows, hnobody, Option.isNone_none, if_true, take, Cache.step, hr,
      Option.elim_some, Cache.readerStep, hread]
  have hadvertised : s.cache.revisionAdvertised ≠ c.target := Ne.symm htarget
  rw [hcache]
  refine ⟨(Cache.loopDone_revisions s.cache i c.target s.cache.markedIn true).1, ?_⟩
  simp [Cache.loopDone, Cache.mark, Cache.loopHead, hd, Cache.revisionIsRead, hadvertised,
    Cache.setReader, hlt]

end Turns
end BTHomeWritable.Receiver
