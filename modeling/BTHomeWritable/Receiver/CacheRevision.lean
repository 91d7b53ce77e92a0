import BTHomeWritable.Receiver.CacheLayout

/-!
# The revision marked read

What the mark stands for: under the present layout, every entry that is offered
and can be read has a value read since the revision was first shown, or settled
by a command.  A read earns the mark entry by entry for the layout it captured.
The argument fails where a mark outlives its layout, where a read that stands
down marks a revision it did not look at, where the table hides a `read`, and
where an event's answer stands in for a value.  `faithful` leaves these out.

* `Good` is a value that counts for a revision, and `Covered` says that every
  entry has one.
* `Walked` is the same of the entries that a read has been past, and `ReaderOk` and
  `WriterOk` say it of each read under way.
* `Grows` is what a step may do to the values for all this to stay; the moves of
  the machine are lemmas over it (`RevisionInv.setReader`, `RevisionInv.marked`,
  `RevisionInv.loopDone` and so on).

`RevisionInv.step` is the step, one lemma for each way on, and
`revision_read_when_marked` the run.  `marked_read_and_empty` is a layout that
changes under its mark.
-/

namespace BTHomeWritable.Receiver.Cache

/-- A value of the present layout, read since revision `t` was first shown or settled by a
command. -/
def Good (s : Cache) (t number : ℕ) : Prop :=
  ∃ held, s.values number = some held ∧
    ∃ source ∈ held.sources, OfLayout s number source ∧ (source.settled = true ∨ t ∈ source.seen)

/-- Every offered entry of the current declaration that the device lets be read is good. -/
def Covered (env : Opening) (s : Cache) (t : ℕ) : Prop :=
  ∀ d, s.declaration = some d → ∀ e ∈ d.offered env.describe, s.readable e.entry = true →
    Good s t e.entry

/-- What is marked read has been read. -/
def MarkHolds (env : Opening) (s : Cache) : Prop :=
  ∀ t, s.revisionAdvertised = some t → s.revisionRead = some t → Covered env s t

/-- The step neither carries a mark into another layout, nor marks a revision it has not read, nor
takes an entry as read that it passes by. -/
def faithful (env : Opening) (s : Cache) : CacheAct → Bool
  | .advertise layout revision _ _ =>
      let shown := revision.or s.revisionAdvertised
      shown.isNone || shown ≠ s.revisionRead || (!s.newLayout layout && s.markedIn = s.layouts)
  | .link i _ =>
      match s.readers[i]? with
      | some (.queued c _) => !s.revisionIsRead || c.target = s.revisionAdvertised
      | _ => true
  | .read i .writeOnly =>
      match s.readers[i]? with
      | some (.reading c _ (e :: _) _) => c.layouts ≠ s.layouts || !s.readable e.entry
      | _ => true
  | .carry i .writeOnly =>
      match s.writers[i]? with
      | some (.folding c _ (e :: _) _) => c.layouts ≠ s.layouts || !s.readable e.entry
      | _ => true
  | .closed i false _ =>
      match s.readers[i]? with
      | some (.closing c _ (.returned true)) => c.target.isNone || c.layouts = s.layouts
      | _ => true
  | .carried i =>
      match s.writers[i]? with
      | some (.folding c _ [] false) => c.target.isNone || c.layouts = s.layouts
      | _ => true
  | .confirm i look false =>
      match s.writers[i]? with
      | some (.acknowledged o _) =>
          !(readBack env o.entry look).any Option.isSome || !s.readIsDue || o.coalesce
      | _ => true
  | _ => true

/-! ## Reads under way -/

/-- A read has captured what the declaration still is, unless the layout has changed since. -/
structure Begun (s : Cache) (c : Capture) : Prop where
  layouts : c.layouts ≤ s.layouts
  entries : c.layouts = s.layouts →
    s.declaration.map Declaration.entries = some c.declaration.entries
  target : c.layouts = s.layouts → ∀ t, c.target = some t → t ∈ s.seen

/-- The entries that are not left are good for the target. -/
def Walked (env : Opening) (s : Cache) (c : Capture) (rest : List WritableEntry) : Prop :=
  c.layouts = s.layouts → ∀ t, c.target = some t → ∀ e ∈ c.declaration.offered env.describe,
    e ∈ rest ∨ (s.readable e.entry = true → Good s t e.entry)

def ReaderOk (env : Opening) (s : Cache) : Reader → Prop
  | .queued c _ | .connecting c _ => Begun s c
  | .reading c _ rest failed => Begun s c ∧ (failed = false → Walked env s c rest)
  | .closing c _ result => Begun s c ∧ (result = .returned true → Walked env s c [])
  | .gone => True

def WriterOk (env : Opening) (s : Cache) : Writer → Prop
  | .folding c _ rest failed => Begun s c ∧ (failed = false → Walked env s c rest)
  | _ => True

structure RevisionInv (env : Opening) (s : Cache) : Prop where
  numbered : Numbered s
  shown : ∀ t, s.revisionAdvertised = some t → t ∈ s.seen
  markedIn : s.markedIn ≤ s.layouts
  mark : ∀ t, s.revisionRead = some t → s.markedIn = s.layouts → t ∈ s.seen ∧ Covered env s t
  honest : ∀ t, s.revisionAdvertised = some t → s.revisionRead = some t → s.markedIn = s.layouts
  readers : ∀ r ∈ s.readers, ReaderOk env s r
  writers : ∀ w ∈ s.writers, WriterOk env s w

/-- Under one layout values only get better. -/
structure Grows (s s' : Cache) : Prop where
  entries : s'.declaration.map Declaration.entries = s.declaration.map Declaration.entries
  layouts : s'.layouts = s.layouts
  readable : s'.readable = s.readable
  seen : ∀ t ∈ s.seen, t ∈ s'.seen
  good : ∀ t ∈ s.seen, ∀ number, Good s t number → Good s' t number

variable {env : Opening} {s s' : Cache} {c : Capture} {rest : List WritableEntry} {i : ℕ}

theorem Grows.begun (h : Grows s s') (hc : Begun s c) : Begun s' c where
  layouts := h.layouts ▸ hc.layouts
  entries hl := h.entries.trans (hc.entries (hl.trans h.layouts))
  target hl t ht := h.seen t (hc.target (hl.trans h.layouts) t ht)

theorem Grows.walked (h : Grows s s') (hc : Begun s c) (hwalked : Walked env s c rest) :
    Walked env s' c rest := by
  intro hl t ht e he
  have hl' : c.layouts = s.layouts := hl.trans h.layouts
  rcases hwalked hl' t ht e he with hrest | hgood
  · exact Or.inl hrest
  · right
    intro hreadable
    rw [h.readable] at hreadable
    exact h.good t (hc.target hl' t ht) _ (hgood hreadable)

theorem Grows.covered (h : Grows s s') {t : ℕ} (ht : t ∈ s.seen) (hcovered : Covered env s t) :
    Covered env s' t := by
  intro d' hd' e he hreadable
  have hentries := h.entries
  rw [hd', Option.map_some] at hentries
  obtain ⟨d, hd, hsame⟩ := Option.map_eq_some_iff.mp hentries.symm
  have hoffered : e ∈ d.offered env.describe := by
    unfold Declaration.offered
    rw [hsame]
    exact he
  rw [h.readable] at hreadable
  exact h.good t ht _ (hcovered d hd e hoffered hreadable)

theorem Grows.reader (h : Grows s s') {r : Reader} (hr : ReaderOk env s r) : ReaderOk env s' r := by
  cases r with
  | queued c attempt => exact h.begun hr
  | connecting c attempt => exact h.begun hr
  | reading c attempt rest failed => exact ⟨h.begun hr.1, fun hf => h.walked hr.1 (hr.2 hf)⟩
  | closing c attempt result => exact ⟨h.begun hr.1, fun hf => h.walked hr.1 (hr.2 hf)⟩
  | gone => trivial

theorem Grows.writer (h : Grows s s') {w : Writer} (hw : WriterOk env s w) : WriterOk env s' w := by
  cases w with
  | begun o => trivial
  | acknowledged o layouts => trivial
  | folding c wasReading rest failed => exact ⟨h.begun hw.1, fun hf => h.walked hw.1 (hw.2 hf)⟩
  | gone => trivial

/-- A read of a layout that is gone promises nothing. -/
theorem begun_anew (h : s.layouts < s'.layouts) (hc : Begun s c) : Begun s' c := by
  have hlt : c.layouts < s'.layouts := Nat.lt_of_le_of_lt hc.layouts h
  exact ⟨hlt.le, fun hl => absurd hl hlt.ne, fun hl => absurd hl hlt.ne⟩

theorem walked_anew (h : s.layouts < s'.layouts) (hc : Begun s c) : Walked env s' c rest :=
  fun hl => absurd hl (Nat.lt_of_le_of_lt hc.layouts h).ne

theorem reader_anew (h : s.layouts < s'.layouts) {r : Reader} (hr : ReaderOk env s r) :
    ReaderOk env s' r := by
  cases r with
  | queued c attempt => exact begun_anew h hr
  | connecting c attempt => exact begun_anew h hr
  | reading c attempt rest failed => exact ⟨begun_anew h hr.1, fun _ => walked_anew h hr.1⟩
  | closing c attempt result => exact ⟨begun_anew h hr.1, fun _ => walked_anew h hr.1⟩
  | gone => trivial

theorem writer_anew (h : s.layouts < s'.layouts) {w : Writer} (hw : WriterOk env s w) :
    WriterOk env s' w := by
  cases w with
  | begun o => trivial
  | acknowledged o layouts => trivial
  | folding c wasReading rest failed => exact ⟨begun_anew h hw.1, fun _ => walked_anew h hw.1⟩
  | gone => trivial

/-- One value more, got for the present layout. -/
theorem Stores.good {x : ℕ × Source} (hframe : Frame s s') (hstores : Stores s s' (some x))
    (hof : OfLayout s x.1 x.2) {t : ℕ} (ht : x.2.settled = true ∨ t ∈ x.2.seen) :
    Good s' t x.1 := by
  obtain ⟨value, hvalues⟩ := hstores
  obtain ⟨held, hheld, hmem, -⟩ := keep_sources s x.1 value x.2
  refine ⟨held, (congrFun hvalues x.1).trans hheld, x.2, hmem, ⟨?_, ?_⟩, ht⟩
  · have hdeclared : s'.declared x.1 = s.declared x.1 :=
      declared_congr (congrArg _ hframe.declaration) x.1
    exact hdeclared.trans hof.1
  · exact hof.2.trans hframe.layouts.symm

theorem Grows.stores (hframe : Frame s s') {x : Option (ℕ × Source)} (hstores : Stores s s' x)
    (hof : ∀ y ∈ x, OfLayout s y.1 y.2)
    (hfresh : ∀ y ∈ x, y.2.settled = true ∨ y.2.seen = s.seen) : Grows s s' where
  entries := congrArg _ hframe.declaration
  layouts := hframe.layouts
  readable := hframe.readable
  seen t ht := hframe.seen ▸ ht
  good t ht number hgood := by
    have hsame : s'.values number = s.values number → Good s' t number := by
      intro hvalues
      obtain ⟨held, hheld, source, hmem, hsource, hseen⟩ := hgood
      refine ⟨held, hvalues.trans hheld, source, hmem, ⟨?_, ?_⟩, hseen⟩
      · have hdeclared : s'.declared number = s.declared number :=
          declared_congr (congrArg _ hframe.declaration) number
        exact hdeclared.trans hsource.1
      · exact hsource.2.trans hframe.layouts.symm
    cases x with
    | none => exact hsame (congrFun hstores number)
    | some y =>
        by_cases hnumber : number = y.1
        · subst hnumber
          apply Stores.good hframe hstores (hof y rfl)
          rcases hfresh y rfl with hsettled | hseen
          · exact Or.inl hsettled
          · exact Or.inr (hseen ▸ ht)
        · obtain ⟨value, hvalues⟩ := hstores
          exact hsame ((congrFun hvalues number).trans (keep_other hnumber value y.2))

theorem Grows.same (hframe : Frame s s') (hvalues : s'.values = s.values) : Grows s s' :=
  Grows.stores (x := none) hframe hvalues (by simp) (by simp)

/-! ## Moves of the machine -/

/-- Under one layout, with the mark as it was, only tasks and better values are new. -/
theorem RevisionInv.moves (h : RevisionInv env s) (hgrows : Grows s s') (hnumbered : Numbered s')
    (hadvertised : s'.revisionAdvertised = s.revisionAdvertised)
    (hread : s'.revisionRead = s.revisionRead) (hmarked : s'.markedIn = s.markedIn)
    (hreaders : ∀ r ∈ s'.readers, r ∈ s.readers ∨ ReaderOk env s' r)
    (hwriters : ∀ w ∈ s'.writers, w ∈ s.writers ∨ WriterOk env s' w) : RevisionInv env s' where
  numbered := hnumbered
  shown t ht := hgrows.seen t (h.shown t (hadvertised ▸ ht))
  markedIn := by rw [hmarked, hgrows.layouts]; exact h.markedIn
  mark t ht hin := by
    rw [hread] at ht
    rw [hmarked, hgrows.layouts] at hin
    obtain ⟨hseen, hcovered⟩ := h.mark t ht hin
    exact ⟨hgrows.seen t hseen, hgrows.covered hseen hcovered⟩
  honest t hadv ht := by
    rw [hadvertised] at hadv
    rw [hread] at ht
    rw [hmarked, hgrows.layouts]
    exact h.honest t hadv ht
  readers r hr := (hreaders r hr).elim (fun hr => hgrows.reader (h.readers r hr)) id
  writers w hw := (hwriters w hw).elim (fun hw => hgrows.writer (h.writers w hw)) id

theorem RevisionInv.setReader (h : RevisionInv env s) {r : Reader} (hr : ReaderOk env s r)
    (i : ℕ) : RevisionInv env (s.setReader i r) := by
  have hgrows : Grows s (s.setReader i r) := Grows.same ⟨rfl, rfl, rfl, rfl, rfl⟩ rfl
  apply h.moves hgrows h.numbered rfl rfl rfl
  · intro r' hr'
    rcases List.mem_or_eq_of_mem_set hr' with hmem | rfl
    · exact Or.inl hmem
    · exact Or.inr (hgrows.reader hr)
  · exact fun w hw => Or.inl hw

theorem RevisionInv.setWriter (h : RevisionInv env s) {w : Writer} (hw : WriterOk env s w)
    (i : ℕ) : RevisionInv env (s.setWriter i w) := by
  have hgrows : Grows s (s.setWriter i w) := Grows.same ⟨rfl, rfl, rfl, rfl, rfl⟩ rfl
  apply h.moves hgrows h.numbered rfl rfl rfl
  · exact fun r hr => Or.inl hr
  · intro w' hw'
    rcases List.mem_or_eq_of_mem_set hw' with hmem | rfl
    · exact Or.inl hmem
    · exact Or.inr (hgrows.writer hw)

/-- The flags of the read loop and the clock are nothing to the mark. -/
theorem RevisionInv.flags (h : RevisionInv env s) (reading readConnected : Bool)
    (readFailedAt : Option ℤ) (now : ℤ) :
    RevisionInv env { s with
      reading := reading, readConnected := readConnected, readFailedAt := readFailedAt
      now := now } :=
  h.moves (Grows.same ⟨rfl, rfl, rfl, rfl, rfl⟩ rfl) h.numbered rfl rfl rfl (fun _ hr => Or.inl hr)
    fun _ hw => Or.inl hw

theorem RevisionInv.marked (h : RevisionInv env s) {target : Option ℕ} {layouts : ℕ}
    (hle : layouts ≤ s.layouts)
    (htarget : ∀ t, target = some t → layouts = s.layouts ∧ t ∈ s.seen ∧ Covered env s t) :
    RevisionInv env (s.mark target layouts) := by
  have hgrows : Grows s (s.mark target layouts) := Grows.same ⟨rfl, rfl, rfl, rfl, rfl⟩ rfl
  exact
    { numbered := h.numbered
      shown := h.shown
      markedIn := hle
      mark := fun t ht _ => (htarget t ht).2
      honest := fun t _ ht => (htarget t ht).1
      readers := fun r hr => hgrows.reader (h.readers r hr)
      writers := fun w hw => hgrows.writer (h.writers w hw) }

theorem RevisionInv.loopFailed (h : RevisionInv env s) (i : ℕ) :
    RevisionInv env (s.loopFailed i) :=
  (h.flags false s.readConnected (some s.now) s.now).setReader (r := .gone) trivial i

theorem RevisionInv.loopHead (h : RevisionInv env s) (i : ℕ) (reachable : Bool) :
    RevisionInv env (s.loopHead i reachable) := by
  unfold Cache.loopHead
  split
  · exact h.loopFailed i
  · rename_i d hdeclaration
    simp only
    split
    · exact (h.flags false s.readConnected none s.now).setReader (r := .gone) trivial i
    · split
      · exact h.loopFailed i
      · refine h.setReader (r := .queued ⟨s.revisionAdvertised, d, s.layouts⟩ 1) ?_ i
        refine ⟨le_rfl, fun _ => ?_, fun _ => h.shown⟩
        rw [hdeclaration]
        rfl

theorem RevisionInv.loopDone (h : RevisionInv env s) {target : Option ℕ} {layouts : ℕ}
    (hle : layouts ≤ s.layouts)
    (htarget : ∀ t, target = some t → layouts = s.layouts ∧ t ∈ s.seen ∧ Covered env s t)
    (i : ℕ) (reachable : Bool) : RevisionInv env (s.loopDone i target layouts reachable) := by
  have hmarked := h.marked hle htarget
  simp only [Cache.loopDone]
  split
  · exact (hmarked.flags false s.readConnected none s.now).setReader (r := .gone) trivial i
  · exact hmarked.loopHead i reachable

theorem RevisionInv.requestRead (h : RevisionInv env s) (reachable : Bool) :
    RevisionInv env (s.requestRead reachable) := by
  unfold Cache.requestRead
  split
  · exact h
  · refine RevisionInv.loopHead ?_ s.readers.length reachable
    refine h.moves (Grows.same ⟨rfl, rfl, rfl, rfl, rfl⟩ rfl) h.numbered rfl rfl rfl ?_ ?_
    · intro r hr
      rcases List.mem_append.mp hr with hr | hr
      · exact Or.inl hr
      · obtain rfl := List.mem_singleton.mp hr
        exact Or.inr trivial
    · exact fun w hw => Or.inl hw

/-- A walk that has been through and has not failed makes the target good. -/
theorem Walked.covered (hbegun : Begun s c) (hwalked : Walked env s c [])
    (hlayouts : c.layouts = s.layouts) {t : ℕ} (ht : c.target = some t) : Covered env s t := by
  intro d hd e he hreadable
  have hentries := hbegun.entries hlayouts
  rw [hd, Option.map_some, Option.some.injEq] at hentries
  have hoffered : e ∈ c.declaration.offered env.describe := by
    unfold Declaration.offered
    rw [← hentries]
    exact he
  rcases hwalked hlayouts t ht e hoffered with hnone | hgood
  · exact absurd hnone List.not_mem_nil
  · exact hgood hreadable

/-! ## The steps -/

/-- Storing a value touches neither the mark nor a task. -/
structure Untasked (s s' : Cache) : Prop where
  readers : s'.readers = s.readers
  writers : s'.writers = s.writers
  revisionRead : s'.revisionRead = s.revisionRead
  markedIn : s'.markedIn = s.markedIn

theorem RevisionInv.stored (h : RevisionInv env s) (hframe : Frame s s') (hrest : Untasked s s')
    (hgrows : Grows s s') : RevisionInv env s' := by
  refine h.moves hgrows ?_ hframe.revisionAdvertised hrest.revisionRead hrest.markedIn ?_ ?_
  · intro d hd
    exact h.numbered d (hframe.declaration ▸ hd)
  · exact fun r hr => Or.inl (hrest.readers ▸ hr)
  · exact fun w hw => Or.inl (hrest.writers ▸ hw)

theorem readEntry_untasked (env : Opening) (s : Cache) (e : WritableEntry) (look : Look) :
    Untasked s (s.readEntry env e look).1 := by
  cases look with
  | answer raw =>
      simp only [readEntry]
      split <;> exact ⟨rfl, rfl, rfl, rfl⟩
  | absent | writeOnly | raised => exact ⟨rfl, rfl, rfl, rfl⟩

theorem settleWrittenValue_untasked (s : Cache) (o : Order) (layouts : ℕ)
    (reported : Option Bytes) : Untasked s (s.settleWrittenValue o layouts reported) := by
  unfold settleWrittenValue
  split
  · split <;> exact ⟨rfl, rfl, rfl, rfl⟩
  · exact ⟨rfl, rfl, rfl, rfl⟩

theorem settleWrittenValue_readIsDue (s : Cache) (o : Order) (layouts : ℕ)
    (reported : Option Bytes) :
    (s.settleWrittenValue o layouts reported).readIsDue = s.readIsDue := by
  unfold settleWrittenValue
  split
  · split <;> rfl
  · rfl

theorem decoding_seen {e : WritableEntry} {look : Look} :
    ∀ y ∈ decoding env s e look, y.1 = e.entry ∧ y.2.seen = s.seen := by
  intro y hy
  unfold decoding at hy
  split at hy
  · split at hy
    · obtain rfl := Option.some.inj hy
      exact ⟨rfl, rfl⟩
    · simp at hy
  · simp at hy

/-- An entry that is left behind without a refusal is good, or cannot be read. -/
theorem readEntry_passes {e : WritableEntry} {look : Look}
    (hok : (s.readEntry env e look).2 = .ok false) :
    look = .writeOnly ∨ ∃ y, decoding env s e look = some y ∧ y.1 = e.entry := by
  cases look with
  | absent => simp [readEntry] at hok
  | writeOnly => exact Or.inl rfl
  | raised => simp [readEntry] at hok
  | answer raw =>
      right
      cases hopen : env.openRead e raw with
      | error error =>
          cases error with
          | staleEntry message => simp [readEntry, hopen] at hok
          | other error => simp [readEntry, hopen] at hok
      | ok opened =>
          cases opened with
          | none => simp [readEntry, hopen] at hok
          | some value => exact ⟨(e.entry, s.nowRead e.objectId), by simp [decoding, hopen], rfl⟩

/-- A walk that ends at an entry does not end in full. -/
theorem readEntry_error_ne (s : Cache) (e : WritableEntry) (look : Look) :
    (s.readEntry env e look).2 ≠ .error (.returned true) := by
  cases look with
  | absent | writeOnly | raised => simp [readEntry]
  | answer raw =>
      simp only [readEntry]
      split <;> simp

/-- One entry of a walk. -/
theorem readEntry_walk (h : RevisionInv env s) (rest : List WritableEntry) {e : WritableEntry}
    {look : Look}
    (hbegun : Begun s c) (hof : ∀ y ∈ decoding env s e look, OfLayout s y.1 y.2)
    (hlook : look = .writeOnly → c.layouts = s.layouts → s.readable e.entry = false) :
    RevisionInv env (s.readEntry env e look).1 ∧ Begun (s.readEntry env e look).1 c ∧
      ((s.readEntry env e look).2 = .ok false → Walked env s c (e :: rest) →
        Walked env (s.readEntry env e look).1 c rest) := by
  obtain ⟨hframe, hstores⟩ := readEntry_stores env s e look
  have hgrows : Grows s (s.readEntry env e look).1 :=
    Grows.stores hframe hstores hof fun y hy => Or.inr (decoding_seen y hy).2
  refine ⟨h.stored hframe (readEntry_untasked env s e look) hgrows, hgrows.begun hbegun, ?_⟩
  intro hok hwalked hl t ht e' he'
  have hl' : c.layouts = s.layouts := hl.trans hgrows.layouts
  rcases hgrows.walked hbegun hwalked hl t ht e' he' with hmem | hgood
  · rcases List.mem_cons.mp hmem with rfl | hmem
    · right
      intro hreadable
      rcases readEntry_passes hok with hwrite | ⟨y, hy, hentry⟩
      · rw [hgrows.readable, hlook hwrite hl'] at hreadable
        simp at hreadable
      · rw [hy] at hstores
        rw [← hentry]
        apply Stores.good hframe hstores (hof y hy)
        rw [(decoding_seen y hy).2]
        exact Or.inr (hbegun.target hl' t ht)
    · exact Or.inl hmem
  · exact Or.inr hgood

theorem readerOk_of_get (h : RevisionInv env s) {r : Reader} (hr : s.readers[i]? = some r) :
    ReaderOk env s r := h.readers r (List.mem_of_getElem? hr)

theorem writerOk_of_get (h : RevisionInv env s) {w : Writer} (hw : s.writers[i]? = some w) :
    WriterOk env s w := h.writers w (List.mem_of_getElem? hw)

theorem RevisionInv.link (h : RevisionInv env s) {r : Reader} (hr : s.readers[i]? = some r)
    {reachable : Bool} (hfaithful : faithful env s (.link i reachable) = true) :
    RevisionInv env (s.readerStep env i r (.link i reachable)) := by
  have hok := readerOk_of_get h hr
  simp only [readerStep]
  split
  · rename_i c attempt
    split
    · rename_i hread
      -- nothing is read: the target is the revision that is marked already
      simp only [faithful, hr, hread, Bool.not_true, Bool.false_or, decide_eq_true_eq] at hfaithful
      apply h.loopDone h.markedIn
      intro t ht
      have hadv : s.revisionAdvertised = some t := hfaithful ▸ ht
      simp only [revisionIsRead, hadv, Option.isSome_some, Bool.true_and, decide_eq_true_eq]
        at hread
      have hin := h.honest t hadv hread.symm
      exact ⟨hin, h.mark t hread.symm hin⟩
    · exact h.setReader (r := .connecting c attempt) hok i
  · exact h

theorem RevisionInv.readStep (h : RevisionInv env s) {r : Reader} (hr : s.readers[i]? = some r)
    {look : Look} (hbelongs : Belongs env s (.read i look))
    (hfaithful : faithful env s (.read i look) = true) :
    RevisionInv env (s.readerStep env i r (.read i look)) := by
  have hok := readerOk_of_get h hr
  simp only [readerStep]
  split
  · rename_i c attempt e rest failed
    obtain ⟨hbegun, hwalked⟩ := hok
    have hof : ∀ y ∈ decoding env s e look, OfLayout s y.1 y.2 := by
      intro y hy
      apply hbelongs y
      simpa only [storing, hr] using hy
    have hlook : look = .writeOnly → c.layouts = s.layouts → s.readable e.entry = false := by
      rintro rfl hl
      simpa [faithful, hr, hl] using hfaithful
    obtain ⟨hinv, hbegun', hwalk⟩ := readEntry_walk h rest hbegun hof hlook
    cases hread : s.readEntry env e look with
    | mk s₁ result =>
        rw [hread] at hinv hbegun' hwalk
        cases result with
        | ok refused =>
            refine hinv.setReader (r := .reading c attempt rest (failed || refused))
              ⟨hbegun', fun hf => ?_⟩ i
            obtain ⟨rfl, rfl⟩ := Bool.or_eq_false_iff.mp hf
            exact hwalk rfl (hwalked rfl)
        | error result =>
            refine (hinv.flags s₁.reading false s₁.readFailedAt s₁.now).setReader
              (r := .closing c attempt result) ⟨?_, ?_⟩ i
            · have hgrows : Grows s₁ { s₁ with readConnected := false } :=
                Grows.same ⟨rfl, rfl, rfl, rfl, rfl⟩ rfl
              exact hgrows.begun hbegun'
            · rintro rfl
              exact absurd (congrArg Prod.snd hread) (readEntry_error_ne s e look)
  · exact h

theorem RevisionInv.walkedStep (h : RevisionInv env s) {r : Reader}
    (hr : s.readers[i]? = some r) : RevisionInv env (s.readerStep env i r (.walked i)) := by
  have hok := readerOk_of_get h hr
  simp only [readerStep]
  split
  · rename_i c attempt failed
    obtain ⟨hbegun, hwalked⟩ := hok
    have hgrows : Grows s { s with readConnected := false } :=
      Grows.same ⟨rfl, rfl, rfl, rfl, rfl⟩ rfl
    refine (h.flags s.reading false s.readFailedAt s.now).setReader
      (r := .closing c attempt (.returned !failed)) ⟨hgrows.begun hbegun, fun hall => ?_⟩ i
    have hfailed : failed = false := by simpa using hall
    exact hgrows.walked hbegun (hwalked hfailed)
  · exact h

theorem RevisionInv.closedStep (h : RevisionInv env s) {r : Reader}
    (hr : s.readers[i]? = some r) {raises reachable : Bool}
    (hfaithful : faithful env s (.closed i raises reachable) = true) :
    RevisionInv env (s.readerStep env i r (.closed i raises reachable)) := by
  have hok := readerOk_of_get h hr
  simp only [readerStep]
  split
  · rename_i c attempt result
    obtain ⟨hbegun, hwalked⟩ := hok
    cases raises with
    | true => exact h.loopFailed i
    | false =>
        simp only [Bool.false_eq_true, if_false]
        split
        · apply h.loopDone hbegun.layouts
          intro t ht
          have hl : c.layouts = s.layouts := by simpa [faithful, hr, ht] using hfaithful
          exact ⟨hl, hbegun.target hl t ht, Walked.covered hbegun (hwalked rfl) hl ht⟩
        · split
          · exact h.setReader (r := .queued c 2) hbegun i
          · exact h.loopFailed i
        · exact h.loopFailed i
  · exact h

theorem RevisionInv.carryEnds (h : RevisionInv env s) (hbegun : Begun s c) {done : Bool}
    (hdone : done = true → Walked env s c [] ∧ (c.target.isSome → c.layouts = s.layouts))
    (i : ℕ) (wasReading : Bool) : RevisionInv env (s.carryEnds i c wasReading done) := by
  have hout : RevisionInv env
      (({ s with readConnected := false, reading := wasReading } : Cache).setWriter i .gone) :=
    (h.flags wasReading false s.readFailedAt s.now).setWriter (w := .gone) trivial i
  unfold Cache.carryEnds
  cases done with
  | false => exact hout.flags wasReading false (some s.now) s.now
  | true =>
      obtain ⟨hwalked, hlayouts⟩ := hdone rfl
      have hgrows : Grows s
          (({ s with readConnected := false, reading := wasReading } : Cache).setWriter i .gone) :=
        Grows.same ⟨rfl, rfl, rfl, rfl, rfl⟩ rfl
      apply hout.marked hbegun.layouts
      intro t ht
      have hl : c.layouts = s.layouts := hlayouts (by simp [ht])
      have hseen := hbegun.target hl t ht
      exact ⟨hl, hseen, hgrows.covered hseen (Walked.covered hbegun hwalked hl ht)⟩

theorem RevisionInv.carryStep (h : RevisionInv env s) {w : Writer} (hw : s.writers[i]? = some w)
    {look : Look} (hbelongs : Belongs env s (.carry i look))
    (hfaithful : faithful env s (.carry i look) = true) :
    RevisionInv env (s.writerStep env i w (.carry i look)) := by
  have hok := writerOk_of_get h hw
  simp only [writerStep]
  split
  · rename_i c wasReading e rest failed
    obtain ⟨hbegun, hwalked⟩ := hok
    have hof : ∀ y ∈ decoding env s e look, OfLayout s y.1 y.2 := by
      intro y hy
      apply hbelongs y
      simpa only [storing, hw] using hy
    have hlook : look = .writeOnly → c.layouts = s.layouts → s.readable e.entry = false := by
      rintro rfl hl
      simpa [faithful, hw, hl] using hfaithful
    obtain ⟨hinv, hbegun', hwalk⟩ := readEntry_walk h rest hbegun hof hlook
    cases hread : s.readEntry env e look with
    | mk s₁ result =>
        rw [hread] at hinv hbegun' hwalk
        cases result with
        | ok refused =>
            refine hinv.setWriter (w := .folding c wasReading rest (failed || refused))
              ⟨hbegun', fun hf => ?_⟩ i
            obtain ⟨rfl, rfl⟩ := Bool.or_eq_false_iff.mp hf
            exact hwalk rfl (hwalked rfl)
        | error result => exact hinv.carryEnds hbegun' (by simp) i wasReading
  · exact h

/-- The read that a command begins on its connection: the entry it has settled is passed by. -/
theorem RevisionInv.carryRead (h : RevisionInv env s) {skip : Option ℕ}
    (hskip : ∀ number, skip = some number → ∀ t ∈ s.seen, Good s t number) (i : ℕ) :
    RevisionInv env (s.carryRead env i skip) := by
  unfold Cache.carryRead
  split
  · exact h.setWriter (w := .gone) trivial i
  · rename_i d hdeclaration
    have hgrows : Grows s { s with reading := true, readConnected := true } :=
      Grows.same ⟨rfl, rfl, rfl, rfl, rfl⟩ rfl
    have hbegun : Begun s ⟨s.revisionAdvertised, d, s.layouts⟩ := by
      refine ⟨le_rfl, fun _ => ?_, fun _ => h.shown⟩
      rw [hdeclaration]
      rfl
    refine (h.flags true true s.readFailedAt s.now).setWriter (w := .folding _ _ _ _)
      ⟨hgrows.begun hbegun, fun _ => hgrows.walked hbegun ?_⟩ i
    intro _ t ht e he
    by_cases hentry : some e.entry = skip
    · exact Or.inr fun _ => hskip e.entry hentry.symm t (h.shown t ht)
    · exact Or.inl (List.mem_filter.mpr ⟨he, by simpa using hentry⟩)

theorem RevisionInv.confirmStep (h : RevisionInv env s) {w : Writer}
    (hw : s.writers[i]? = some w) {look : Look} {raises : Bool}
    (hbelongs : Belongs env s (.confirm i look raises))
    (hfaithful : faithful env s (.confirm i look raises) = true) :
    RevisionInv env (s.writerStep env i w (.confirm i look raises)) := by
  cases w with
  | begun o => exact h
  | folding c wasReading rest failed => exact h
  | gone => exact h
  | acknowledged o layouts =>
      simp only [writerStep, Cache.confirm]
      cases hback : readBack env o.entry look with
      | none => exact h.setWriter (w := .gone) trivial i
      | some reported =>
          have hframe := settleWrittenValue_frame s o layouts reported
          have hstores := settleWrittenValue_stores s o layouts reported
          have hof : ∀ y ∈ (if o.coalesce then some (o.number, (⟨o.entry.objectId,
              if (settled o reported).isSome then s.layouts else layouts, true, s.seen⟩ : Source))
              else none), OfLayout s y.1 y.2 := by
            intro y hy
            apply hbelongs y
            simpa only [storing, hw, hback, Option.map_some] using hy
          have hgrows : Grows s (s.settleWrittenValue o layouts reported) := by
            apply Grows.stores hframe hstores hof
            intro y hy
            split at hy
            · obtain rfl := Option.some.inj hy
              exact Or.inl rfl
            · simp at hy
          have hinv := h.stored hframe (settleWrittenValue_untasked s o layouts reported) hgrows
          simp only
          split
          · exact hinv.setWriter (w := .gone) trivial i
          · rename_i hraises
            split
            · rename_i hdue
              apply hinv.carryRead
              intro number hnumber t ht
              -- the command has settled its entry, as the read that follows passes it by
              have hsome : reported.isSome = true := by
                by_contra hnone
                simp [hnone] at hnumber
              have hcoalesce : o.coalesce = true := by
                obtain rfl : raises = false := by simpa using hraises
                have hdue' : s.readIsDue = true := by
                  have hsame : (s.settleWrittenValue o layouts reported).readIsDue = s.readIsDue :=
                    settleWrittenValue_readIsDue s o layouts reported
                  simpa [FOLD_A_DUE_READ_INTO_A_WRITE, hsame] using hdue
                simpa [faithful, hw, hback, hsome, hdue'] using hfaithful
              rw [if_pos hsome] at hnumber
              obtain rfl := Option.some.inj hnumber
              simp only [hcoalesce, if_true] at hstores hof
              exact Stores.good hframe hstores (hof _ rfl) (Or.inl rfl)
            · exact hinv.setWriter (w := .gone) trivial i

theorem RevisionInv.connectedStep (h : RevisionInv env s) {r : Reader}
    (hr : s.readers[i]? = some r) : RevisionInv env (s.readerStep env i r (.connected i)) := by
  have hok := readerOk_of_get h hr
  simp only [readerStep]
  split
  · rename_i c attempt
    have hgrows : Grows s { s with readConnected := true } :=
      Grows.same ⟨rfl, rfl, rfl, rfl, rfl⟩ rfl
    refine (h.flags s.reading true s.readFailedAt s.now).setReader
      (r := .reading c attempt (c.declaration.offered env.describe) false)
      ⟨hgrows.begun hok, fun _ _ _ _ e he => Or.inl he⟩ i
  · exact h

theorem RevisionInv.endRead (h : RevisionInv env s) (r : Reader) :
    RevisionInv env (s.readerStep env i r (.failRead i)) ∧
      RevisionInv env (s.readerStep env i r (.cancelRead i)) := by
  have hgone : ∀ connected, RevisionInv env
      (({ s with reading := false, readConnected := connected } : Cache).setReader i .gone) :=
    fun connected =>
      (h.flags false connected s.readFailedAt s.now).setReader (r := .gone) trivial i
  cases r with
  | queued c attempt => exact ⟨h.loopFailed i, hgone s.readConnected⟩
  | connecting c attempt => exact ⟨h.loopFailed i, hgone s.readConnected⟩
  | reading c attempt rest failed => exact ⟨h, hgone false⟩
  | closing c attempt result => exact ⟨h, hgone s.readConnected⟩
  | gone => exact ⟨h, h⟩

theorem RevisionInv.endWrite (h : RevisionInv env s) {w : Writer} (hw : s.writers[i]? = some w) :
    RevisionInv env (s.writerStep env i w (.failWrite i)) ∧
      RevisionInv env (s.writerStep env i w (.cancelWrite i)) := by
  have hok := writerOk_of_get h hw
  have hgone : RevisionInv env (s.setWriter i .gone) := h.setWriter (w := .gone) trivial i
  cases w with
  | folding c wasReading rest failed =>
      have hfailed : false = true → Walked env s c [] ∧ (c.target.isSome → c.layouts = s.layouts) :=
        fun hdone => absurd hdone (by decide)
      exact ⟨h.carryEnds hok.1 hfailed i wasReading,
        (h.flags wasReading false s.readFailedAt s.now).setWriter (w := .gone) trivial i⟩
  | begun o => exact ⟨hgone, hgone⟩
  | acknowledged o layouts => exact ⟨hgone, hgone⟩
  | gone => exact ⟨hgone, hgone⟩

theorem RevisionInv.carriedStep (h : RevisionInv env s) {w : Writer}
    (hw : s.writers[i]? = some w) (hfaithful : faithful env s (.carried i) = true) :
    RevisionInv env (s.writerStep env i w (.carried i)) := by
  have hok := writerOk_of_get h hw
  simp only [writerStep]
  split
  · rename_i c wasReading failed
    obtain ⟨hbegun, hwalked⟩ := hok
    apply h.carryEnds hbegun
    intro hdone
    obtain rfl : failed = false := by simpa using hdone
    refine ⟨hwalked rfl, fun hsome => ?_⟩
    obtain ⟨t, ht⟩ := Option.isSome_iff_exists.mp hsome
    simpa [faithful, hw, ht] using hfaithful
  · exact h

/-! ## Advertisements -/

theorem RevisionInv.noticeRevision (h : RevisionInv env s) {revision : Option ℕ}
    (hshown : ∀ t, revision = some t → t ∈ s.seen)
    (hhonest : ∀ t, revision = some t → s.revisionRead = some t → s.markedIn = s.layouts)
    (reachable : Bool) : RevisionInv env (s.noticeRevision revision reachable) := by
  unfold Cache.noticeRevision
  cases revision with
  | none => exact h
  | some r =>
      have hset : RevisionInv env { s with revisionAdvertised := some r } := by
        have hgrows : Grows s { s with revisionAdvertised := some r } :=
          ⟨rfl, rfl, rfl, fun _ ht => ht, fun _ _ _ hgood => hgood⟩
        exact ⟨h.numbered, hshown, h.markedIn, h.mark, hhonest,
          fun r' hr' => hgrows.reader (h.readers r' hr'),
          fun w hw => hgrows.writer (h.writers w hw)⟩
      simp only
      split
      · exact hset
      · split
        · exact hset
        · exact hset.requestRead reachable

/-- What an advertisement sets before it looks at the revision. -/
theorem RevisionInv.declared (h : RevisionInv env s) (hgrows : Grows s s')
    (hnumbered : Numbered s') (hadvertised : s'.revisionAdvertised = s.revisionAdvertised)
    (hrest : Untasked s s') : RevisionInv env s' :=
  h.moves hgrows hnumbered hadvertised hrest.revisionRead hrest.markedIn
    (fun _ hr => Or.inl (hrest.readers ▸ hr)) fun _ hw => Or.inl (hrest.writers ▸ hw)

theorem RevisionInv.anew (h : RevisionInv env s) (hlayouts : s.layouts < s'.layouts)
    (hnumbered : Numbered s') (hshown : ∀ t, s'.revisionAdvertised = some t → t ∈ s'.seen)
    (hnot : ∀ t, s'.revisionAdvertised = some t → s'.revisionRead ≠ some t)
    (hrest : Untasked s s') : RevisionInv env s' where
  numbered := hnumbered
  shown := hshown
  markedIn := by
    rw [hrest.markedIn]
    exact h.markedIn.trans hlayouts.le
  mark t ht hin := by
    rw [hrest.markedIn] at hin
    exact absurd hin (Nat.lt_of_le_of_lt h.markedIn hlayouts).ne
  honest t hadv ht := absurd ht (hnot t hadv)
  readers r hr := reader_anew hlayouts (h.readers r (hrest.readers ▸ hr))
  writers w hw := writer_anew hlayouts (h.writers w (hrest.writers ▸ hw))

theorem RevisionInv.advertise (h : RevisionInv env s) {layout : Bytes} {revision : Option ℕ}
    {readable : ℕ → Bool} {reachable : Bool}
    (hfaithful : faithful env s (.advertise layout revision readable reachable) = true) :
    RevisionInv env (s.advertise layout revision readable reachable) := by
  simp only [faithful, Bool.or_eq_true, Bool.and_eq_true, decide_eq_true_eq, Bool.not_eq_true',
    Option.isNone_iff_eq_none] at hfaithful
  -- a layout that is known adds to the revisions shown; a new one starts them over
  cases hnew : s.newLayout layout with
  | false =>
      rw [advertise_of_known hnew]
      let known : Cache := { s with
        seen := s.seen ++ (revision.or s.revisionAdvertised).toList
        declaration := some ⟨entriesFrom 1 layout, revision⟩ }
      have hentries : known.declaration.map Declaration.entries =
          s.declaration.map Declaration.entries := known_entries h.numbered hnew
      have hgrows : Grows s known := by
        refine ⟨hentries, rfl, rfl, fun t ht => List.mem_append_left _ ht, ?_⟩
        rintro t - number ⟨held, hheld, source, hmem, ⟨hdeclared, hlayouts⟩, hseen⟩
        exact ⟨held, hheld, source, hmem,
          ⟨(declared_congr hentries number).trans hdeclared, hlayouts⟩,
          hseen⟩
      have hknown : RevisionInv env known := by
        refine h.moves hgrows ?_ rfl rfl rfl (fun _ hr => Or.inl hr) fun _ hw => Or.inl hw
        rintro d ⟨⟩
        exact (congrArg (entriesFrom 1) (layout_entriesFrom 1 layout)).symm
      apply hknown.noticeRevision
      · intro t ht
        show t ∈ s.seen ++ (revision.or s.revisionAdvertised).toList
        rw [ht]
        exact List.mem_append_right _ (by simp)
      · rintro t rfl hread
        have hread' : s.revisionRead = some t := hread
        rw [Option.some_or, hread'] at hfaithful
        exact (hfaithful.resolve_left (by simp)).2
  | true =>
      rw [advertise_of_new hnew]
      -- the mark may not be the revision that comes with a new layout: `hfaithful` says
      -- it is not
      have hnot : ∀ t, revision.or s.revisionAdvertised = some t → s.revisionRead ≠ some t := by
        intro t ht hread
        rw [ht, hread, hnew] at hfaithful
        simp at hfaithful
      let new : Cache := { s with
        values := if s.layoutChanges layout then fun _ => none else s.values
        layouts := s.layouts + 1
        seen := (revision.or s.revisionAdvertised).toList
        readable := readable
        revisionAdvertised := revision.or s.revisionAdvertised
        declaration := some ⟨entriesFrom 1 layout, revision⟩ }
      have hanew : RevisionInv env new := by
        refine h.anew (Nat.lt_succ_self _) ?_ ?_ hnot ⟨rfl, rfl, rfl, rfl⟩
        · rintro d ⟨⟩
          exact (congrArg (entriesFrom 1) (layout_entriesFrom 1 layout)).symm
        · intro t ht
          have ht' : revision.or s.revisionAdvertised = some t := ht
          show t ∈ (revision.or s.revisionAdvertised).toList
          simp [ht']
      cases revision with
      | none => exact hanew
      | some r =>
          have hnotice : RevisionInv env (new.noticeRevision (some r) reachable) := by
            apply hanew.noticeRevision
            · rintro t ⟨⟩
              show r ∈ (Option.or (some r) s.revisionAdvertised).toList
              simp
            · rintro t ⟨⟩ hread
              exact absurd hread (hnot r rfl)
          exact hnotice

/-! ## Runs -/

theorem RevisionInv.step (h : RevisionInv env s) {a : CacheAct} (hbelongs : Belongs env s a)
    (hfaithful : faithful env s a = true) : RevisionInv env (s.step env a) := by
  have hreader : ∀ j, (∀ r, s.readers[j]? = some r → RevisionInv env (s.readerStep env j r a)) →
      RevisionInv env (s.readers[j]?.elim s fun r => s.readerStep env j r a) := by
    intro j hstep
    cases hr : s.readers[j]? with
    | none => exact h
    | some r => exact hstep r hr
  have hwriter : ∀ j, (∀ w, s.writers[j]? = some w → RevisionInv env (s.writerStep env j w a)) →
      RevisionInv env (s.writers[j]?.elim s fun w => s.writerStep env j w a) := by
    intro j hstep
    cases hw : s.writers[j]? with
    | none => exact h
    | some w => exact hstep w hw
  cases a with
  | advertise layout revision readable reachable => exact h.advertise hfaithful
  | request reachable => exact h.requestRead reachable
  | pass seconds => exact h.flags s.reading s.readConnected s.readFailedAt (s.now + seconds)
  | command number value coalesce =>
      simp only [Cache.step]
      split
      · exact h
      · refine h.moves (Grows.same ⟨rfl, rfl, rfl, rfl, rfl⟩ rfl) h.numbered rfl rfl rfl
          (fun _ hr => Or.inl hr) ?_
        intro w hw
        rcases List.mem_append.mp hw with hw | hw
        · exact Or.inl hw
        · obtain rfl := List.mem_singleton.mp hw
          exact Or.inr trivial
  | acknowledge j =>
      apply hwriter j
      intro w hw
      cases w with
      | begun o => exact h.setWriter (w := .acknowledged o s.layouts) trivial j
      | acknowledged o layouts => exact h
      | folding c wasReading rest failed => exact h
      | gone => exact h
  | confirm j look raises => exact hwriter j fun w hw => h.confirmStep hw hbelongs hfaithful
  | carry j look => exact hwriter j fun w hw => h.carryStep hw hbelongs hfaithful
  | carried j => exact hwriter j fun w hw => h.carriedStep hw hfaithful
  | failWrite j => exact hwriter j fun w hw => (h.endWrite hw).1
  | cancelWrite j => exact hwriter j fun w hw => (h.endWrite hw).2
  | link j reachable => exact hreader j fun r hr => h.link hr hfaithful
  | connected j => exact hreader j fun r hr => h.connectedStep hr
  | read j look => exact hreader j fun r hr => h.readStep hr hbelongs hfaithful
  | walked j => exact hreader j fun r hr => h.walkedStep hr
  | closed j raises reachable => exact hreader j fun r hr => h.closedStep hr hfaithful
  | failRead j => exact hreader j fun r hr => (h.endRead r).1
  | cancelRead j => exact hreader j fun r hr => (h.endRead r).2

theorem revisionInv_start (env : Opening) (remembered : Option (Bytes × Option ℕ))
    (readable : ℕ → Bool) : RevisionInv env (start remembered readable) where
  numbered := numbered_start remembered readable
  shown t ht := by simp [start] at ht
  markedIn := le_rfl
  mark t ht := by simp [start] at ht
  honest t ht := by simp [start] at ht
  readers r hr := by simp [start] at hr
  writers w hw := by simp [start] at hw

theorem RevisionInv.markHolds (h : RevisionInv env s) : MarkHolds env s := by
  intro t hadv hread
  exact (h.mark t hread (h.honest t hadv hread)).2

/-- In every run whose steps store what belongs to the layout and are faithful to the mark, the
revision marked read has been read, in every state reached. -/
theorem revision_read_when_marked (env : Opening) (remembered : Option (Bytes × Option ℕ))
    (readable : ℕ → Bool) (acts : List CacheAct)
    (hsteps : Runs.Along (step env) (fun s a => Belongs env s a ∧ faithful env s a = true)
      (start remembered readable) acts) :
    MarkHolds env (Runs.run (step env) (start remembered readable) acts) := by
  apply RevisionInv.markHolds
  exact Runs.run_invariant (fun _ _ h hstep => h.step hstep.1 hstep.2)
    (revisionInv_start env remembered readable) hsteps

/-- A device is read at revision 5, then flashed with another layout, and begins at 5 again: the
values are gone and the mark is not. -/
theorem marked_read_and_empty :
    let s := Runs.run (step sampleOpening) (start none fun _ => true)
      [.advertise [0x1E] (some 5) (fun _ => true) true, .link 0 true, .connected 0,
        .read 0 (.answer [0x1E, 0x01]), .walked 0, .closed 0 false true,
        .advertise [0x10] (some 5) (fun _ => true) true]
    s.revisionIsRead = true ∧ s.declared 1 = some 0x10 ∧ s.valueOf 1 = none ∧
      s.reading = false ∧ ¬ MarkHolds sampleOpening s := by
  refine ⟨by decide, by decide, by decide, by decide, ?_⟩
  intro hholds
  obtain ⟨held, hheld, -⟩ := hholds 5 (by decide) (by decide) ⟨[⟨1, 0x10⟩], some 5⟩ (by decide)
    ⟨1, 0x10⟩ (by decide) (by decide)
  exact absurd hheld (by decide +revert)

/-- A read, a revision that moves, and a command that carries the read of it past its own entry. -/
theorem revision_read_when_marked_sample :
    MarkHolds sampleOpening (Runs.run (step sampleOpening) (start none fun _ => true)
      [.advertise [0x1E, 0x10] (some 5) (fun _ => true) true, .link 0 true, .connected 0,
        .read 0 (.answer [0x1E, 0x01]), .read 0 (.answer [0x10, 0x00]), .walked 0,
        .closed 0 false true, .command 1 [0x00] true,
        .advertise [0x1E, 0x10] (some 6) (fun _ => true) true, .acknowledge 0,
        .confirm 0 (.answer [0x1E, 0x00]) false, .carry 0 (.answer [0x10, 0x01]), .carried 0]) :=
  revision_read_when_marked sampleOpening none _ _ (by decide)

end BTHomeWritable.Receiver.Cache
