import BTHomeWritable.Lib.Runs
import BTHomeWritable.Receiver.Cache

/-!
# Held values and the layout

A layout change empties the cache, and nothing else looks at the layout: a
command and a read store under the entry they captured before they waited.  Held
values belong to the current layout as long as what is stored was captured as
what its entry is declared as at that moment, and a written value was
acknowledged since the layout last changed.

* `storing` reads off a state and a step which value the step stores, if any, and
  under which source; `step_stores` is the lemma that it does store this and
  nothing else.  `Frame` is what stays otherwise.
* `Belongs` asks of that value that its source is of the current layout.
* Advertisements are two cases, of a layout that is `Known` or `Anew`.

`LayoutInv.step` is the step and `held_values_belong` the run;
`value_held_for_another_object` is one with a step that does not meet the condition.
-/

namespace BTHomeWritable.Receiver.Cache

/-! ## What a step stores -/

/-- The entry `_read_entries` stores a value for, and how the value was got. -/
def decoding (env : Opening) (s : Cache) (e : WritableEntry) : Look → Option (ℕ × Source)
  | .answer raw =>
      match env.openRead e raw with
      | .ok (some _) => some (e.entry, s.nowRead e.objectId)
      | _ => none
  | _ => none

/-- The same of a step. -/
def storing (env : Opening) (s : Cache) : CacheAct → Option (ℕ × Source)
  | .read i look =>
      match s.readers[i]? with
      | some (.reading _ _ (e :: _) _) => decoding env s e look
      | _ => none
  | .carry i look =>
      match s.writers[i]? with
      | some (.folding _ _ (e :: _) _) => decoding env s e look
      | _ => none
  | .confirm i look _ =>
      match s.writers[i]? with
      | some (.acknowledged o layouts) =>
          if o.coalesce then
            (readBack env o.entry look).map fun reported =>
              (o.number, ⟨o.entry.objectId,
                if (settled o reported).isSome then s.layouts else layouts, true, s.seen⟩)
          else none
      | _ => none
  | _ => none

/-- What the step stores was captured as what its entry is declared as now, and is no older than
the layout. -/
def Belongs (env : Opening) (s : Cache) (a : CacheAct) : Prop :=
  ∀ x ∈ storing env s a, s.declared x.1 = some x.2.objectId ∧ x.2.layouts = s.layouts

instance (env : Opening) (s : Cache) (a : CacheAct) : Decidable (Belongs env s a) :=
  inferInstanceAs (Decidable (∀ x ∈ storing env s a, _))

/-- What a step that is no advertisement leaves alone. -/
structure Frame (s s' : Cache) : Prop where
  declaration : s'.declaration = s.declaration
  revisionAdvertised : s'.revisionAdvertised = s.revisionAdvertised
  layouts : s'.layouts = s.layouts
  seen : s'.seen = s.seen
  readable : s'.readable = s.readable

/-- The held values are as they were, or one value was stored. -/
def Stores (s s' : Cache) : Option (ℕ × Source) → Prop
  | none => s'.values = s.values
  | some (number, source) => ∃ value, s'.values = (s.keep number value source).values

variable {env : Opening} {s s' s'' : Cache} {i : ℕ} {c : Capture} {reachable : Bool}

theorem Frame.refl (s : Cache) : Frame s s := ⟨rfl, rfl, rfl, rfl, rfl⟩

theorem Frame.trans (h : Frame s s') (h' : Frame s' s'') : Frame s s'' where
  declaration := h'.declaration.trans h.declaration
  revisionAdvertised := h'.revisionAdvertised.trans h.revisionAdvertised
  layouts := h'.layouts.trans h.layouts
  seen := h'.seen.trans h.seen
  readable := h'.readable.trans h.readable

theorem loopHead_frame (s : Cache) (i : ℕ) (reachable : Bool) :
    Frame s (s.loopHead i reachable) ∧ (s.loopHead i reachable).values = s.values := by
  unfold loopHead
  split
  · exact ⟨⟨rfl, rfl, rfl, rfl, rfl⟩, rfl⟩
  · simp only
    split
    · exact ⟨⟨rfl, rfl, rfl, rfl, rfl⟩, rfl⟩
    · split
      · exact ⟨⟨rfl, rfl, rfl, rfl, rfl⟩, rfl⟩
      · exact ⟨⟨rfl, rfl, rfl, rfl, rfl⟩, rfl⟩

theorem loopDone_frame (s : Cache) (i : ℕ) (target : Option ℕ) (layouts : ℕ) (reachable : Bool) :
    Frame s (s.loopDone i target layouts reachable) ∧
      (s.loopDone i target layouts reachable).values = s.values := by
  simp only [loopDone]
  split
  · exact ⟨⟨rfl, rfl, rfl, rfl, rfl⟩, rfl⟩
  · obtain ⟨hframe, hvalues⟩ := loopHead_frame (s.mark target layouts) i reachable
    exact ⟨⟨hframe.declaration, hframe.revisionAdvertised, hframe.layouts, hframe.seen,
      hframe.readable⟩, hvalues⟩

theorem requestRead_frame (s : Cache) (reachable : Bool) :
    Frame s (s.requestRead reachable) ∧ (s.requestRead reachable).values = s.values := by
  unfold requestRead
  split
  · exact ⟨Frame.refl s, rfl⟩
  · obtain ⟨hframe, hvalues⟩ := loopHead_frame
      { s with reading := true, readers := s.readers ++ [.gone] } s.readers.length reachable
    exact ⟨⟨hframe.declaration, hframe.revisionAdvertised, hframe.layouts, hframe.seen,
      hframe.readable⟩, hvalues⟩

theorem readEntry_stores (env : Opening) (s : Cache) (e : WritableEntry) (look : Look) :
    Frame s (s.readEntry env e look).1 ∧
      Stores s (s.readEntry env e look).1 (decoding env s e look) := by
  cases look with
  | absent => exact ⟨Frame.refl s, rfl⟩
  | writeOnly => exact ⟨Frame.refl s, rfl⟩
  | raised => exact ⟨Frame.refl s, rfl⟩
  | answer raw =>
      cases hopen : env.openRead e raw with
      | error error =>
          simp only [readEntry, decoding, hopen]
          cases error with
          | staleEntry message => exact ⟨Frame.refl s, rfl⟩
          | other error => exact ⟨Frame.refl s, rfl⟩
      | ok opened =>
          simp only [readEntry, decoding, hopen]
          cases opened with
          | none => exact ⟨Frame.refl s, rfl⟩
          | some value => exact ⟨⟨rfl, rfl, rfl, rfl, rfl⟩, value, rfl⟩

theorem settleWrittenValue_frame (s : Cache) (o : Order) (layouts : ℕ) (reported : Option Bytes) :
    Frame s (s.settleWrittenValue o layouts reported) := by
  unfold settleWrittenValue
  split
  · split <;> exact ⟨rfl, rfl, rfl, rfl, rfl⟩
  · exact Frame.refl s

theorem settleWrittenValue_stores (s : Cache) (o : Order) (layouts : ℕ) (reported : Option Bytes) :
    Stores s (s.settleWrittenValue o layouts reported)
      (if o.coalesce then some (o.number, ⟨o.entry.objectId,
        if (settled o reported).isSome then s.layouts else layouts, true, s.seen⟩) else none) := by
  unfold settleWrittenValue
  by_cases hcoalesce : o.coalesce = true
  · simp only [hcoalesce, if_true]
    cases hsettled : settled o reported with
    | none => exact ⟨o.value, rfl⟩
    | some answer => exact ⟨answer, rfl⟩
  · simp only [hcoalesce]
    rfl

theorem carryRead_frame (env : Opening) (s : Cache) (i : ℕ) (skip : Option ℕ) :
    Frame s (s.carryRead env i skip) ∧ (s.carryRead env i skip).values = s.values := by
  unfold carryRead
  split <;> exact ⟨⟨rfl, rfl, rfl, rfl, rfl⟩, rfl⟩

theorem carryEnds_frame (s : Cache) (i : ℕ) (c : Capture) (wasReading done : Bool) :
    Frame s (s.carryEnds i c wasReading done) ∧
      (s.carryEnds i c wasReading done).values = s.values := by
  unfold carryEnds
  cases done with
  | true => exact ⟨⟨rfl, rfl, rfl, rfl, rfl⟩, rfl⟩
  | false => exact ⟨⟨rfl, rfl, rfl, rfl, rfl⟩, rfl⟩

theorem Stores.values {x : Option (ℕ × Source)} (h : Stores s s' x)
    (hvalues : s''.values = s'.values) : Stores s s'' x := by
  cases x with
  | none => exact hvalues.trans h
  | some x =>
      obtain ⟨value, hvalue⟩ := h
      exact ⟨value, hvalues.trans hvalue⟩

theorem confirm_stores (env : Opening) (s : Cache) (i : ℕ) (o : Order) (layouts : ℕ) (look : Look)
    (raises : Bool) :
    Frame s (s.confirm env i o layouts look raises) ∧
      Stores s (s.confirm env i o layouts look raises)
        (if o.coalesce then
          (readBack env o.entry look).map fun reported =>
            (o.number, ⟨o.entry.objectId,
              if (settled o reported).isSome then s.layouts else layouts, true, s.seen⟩)
        else none) := by
  unfold confirm
  cases hback : readBack env o.entry look with
  | none =>
      refine ⟨⟨rfl, rfl, rfl, rfl, rfl⟩, ?_⟩
      simp only [Option.map_none, ite_self]
      rfl
  | some reported =>
      have hframe := settleWrittenValue_frame s o layouts reported
      have hstores := settleWrittenValue_stores s o layouts reported
      simp only [Option.map_some]
      split
      · exact ⟨⟨hframe.declaration, hframe.revisionAdvertised, hframe.layouts, hframe.seen,
          hframe.readable⟩, hstores.values rfl⟩
      · split
        · obtain ⟨hcarry, hvalues⟩ := carryRead_frame env
            (s.settleWrittenValue o layouts reported) i
            (if reported.isSome then some o.number else none)
          exact ⟨hframe.trans hcarry, hstores.values hvalues⟩
        · exact ⟨⟨hframe.declaration, hframe.revisionAdvertised, hframe.layouts, hframe.seen,
            hframe.readable⟩, hstores.values rfl⟩

theorem readerStep_stores (env : Opening) {r : Reader} (hr : s.readers[i]? = some r)
    (a : CacheAct)
    (ha : (∃ reachable, a = .link i reachable) ∨ a = .connected i ∨ (∃ look, a = .read i look) ∨
      a = .walked i ∨ (∃ raises reachable, a = .closed i raises reachable) ∨ a = .failRead i ∨
      a = .cancelRead i) :
    Frame s (s.readerStep env i r a) ∧ Stores s (s.readerStep env i r a) (storing env s a) := by
  -- a read stores where it looks at an entry; every other step of a reader stores nothing
  obtain ⟨reachable, rfl⟩ | rfl | ⟨look, rfl⟩ | rfl | ⟨raises, reachable, rfl⟩ | rfl | rfl := ha
  · simp only [readerStep]
    split
    · split
      · exact loopDone_frame s i _ _ reachable
      · exact ⟨⟨rfl, rfl, rfl, rfl, rfl⟩, rfl⟩
    · exact ⟨Frame.refl s, rfl⟩
  · simp only [readerStep]
    split <;> exact ⟨⟨rfl, rfl, rfl, rfl, rfl⟩, rfl⟩
  · simp only [readerStep, storing, hr]
    split
    · rename_i c attempt e rest failed
      have hentry := readEntry_stores env s e look
      cases hread : s.readEntry env e look with
      | mk s₁ result =>
          rw [hread] at hentry
          obtain ⟨hframe, hstores⟩ := hentry
          cases result with
          | ok refused =>
              exact ⟨hframe.trans ⟨rfl, rfl, rfl, rfl, rfl⟩, hstores.values rfl⟩
          | error result =>
              exact ⟨hframe.trans ⟨rfl, rfl, rfl, rfl, rfl⟩, hstores.values rfl⟩
    · rename_i hother
      refine ⟨Frame.refl s, ?_⟩
      split
      · rename_i c attempt e rest failed hr'
        exact absurd (Option.some.inj hr') (hother c attempt e rest failed)
      · rfl
  · simp only [readerStep]
    split <;> exact ⟨⟨rfl, rfl, rfl, rfl, rfl⟩, rfl⟩
  · simp only [readerStep]
    split
    · split
      · exact ⟨⟨rfl, rfl, rfl, rfl, rfl⟩, rfl⟩
      · split
        · exact loopDone_frame s i _ _ reachable
        · split <;> exact ⟨⟨rfl, rfl, rfl, rfl, rfl⟩, rfl⟩
        · exact ⟨⟨rfl, rfl, rfl, rfl, rfl⟩, rfl⟩
    · exact ⟨Frame.refl s, rfl⟩
  · simp only [readerStep]
    split <;> exact ⟨⟨rfl, rfl, rfl, rfl, rfl⟩, rfl⟩
  · simp only [readerStep]
    split <;> exact ⟨⟨rfl, rfl, rfl, rfl, rfl⟩, rfl⟩

theorem writerStep_stores (env : Opening) {w : Writer} (hw : s.writers[i]? = some w)
    (a : CacheAct)
    (ha : a = .acknowledge i ∨ (∃ look raises, a = .confirm i look raises) ∨
      (∃ look, a = .carry i look) ∨ a = .carried i ∨ a = .failWrite i ∨ a = .cancelWrite i) :
    Frame s (s.writerStep env i w a) ∧ Stores s (s.writerStep env i w a) (storing env s a) := by
  -- a command stores where it confirms, and where its read looks at an entry
  obtain rfl | ⟨look, raises, rfl⟩ | ⟨look, rfl⟩ | rfl | rfl | rfl := ha
  · simp only [writerStep]
    split <;> exact ⟨⟨rfl, rfl, rfl, rfl, rfl⟩, rfl⟩
  · simp only [writerStep, storing, hw]
    cases w with
    | acknowledged o layouts => exact confirm_stores env s i o layouts look raises
    | begun o => exact ⟨Frame.refl s, rfl⟩
    | folding c wasReading rest failed => exact ⟨Frame.refl s, rfl⟩
    | gone => exact ⟨Frame.refl s, rfl⟩
  · simp only [writerStep, storing, hw]
    split
    · rename_i c wasReading e rest failed
      have hentry := readEntry_stores env s e look
      cases hread : s.readEntry env e look with
      | mk s₁ result =>
          rw [hread] at hentry
          obtain ⟨hframe, hstores⟩ := hentry
          cases result with
          | ok refused =>
              exact ⟨hframe.trans ⟨rfl, rfl, rfl, rfl, rfl⟩, hstores.values rfl⟩
          | error result =>
              obtain ⟨hends, hvalues⟩ := carryEnds_frame s₁ i c wasReading false
              exact ⟨hframe.trans hends, hstores.values hvalues⟩
    · rename_i hother
      refine ⟨Frame.refl s, ?_⟩
      split
      · rename_i c wasReading e rest failed hw'
        exact absurd (Option.some.inj hw') (hother c wasReading e rest failed)
      · rfl
  · simp only [writerStep]
    split
    · exact carryEnds_frame s i _ _ _
    · exact ⟨Frame.refl s, rfl⟩
  · simp only [writerStep]
    split
    · exact carryEnds_frame s i _ _ _
    · exact ⟨⟨rfl, rfl, rfl, rfl, rfl⟩, rfl⟩
  · simp only [writerStep]
    split <;> exact ⟨⟨rfl, rfl, rfl, rfl, rfl⟩, rfl⟩

/-- Away from advertisements a step stores at most the one value. -/
theorem step_stores (env : Opening) (s : Cache) (a : CacheAct)
    (ha : ∀ layout revision readable reachable, a ≠ .advertise layout revision readable reachable) :
    Frame s (s.step env a) ∧ Stores s (s.step env a) (storing env s a) := by
  have hreader : ∀ j, (∃ reachable, a = .link j reachable) ∨ a = .connected j ∨
      (∃ look, a = .read j look) ∨ a = .walked j ∨
      (∃ raises reachable, a = .closed j raises reachable) ∨ a = .failRead j ∨ a = .cancelRead j →
      let s' := s.readers[j]?.elim s fun r => s.readerStep env j r a
      Frame s s' ∧ Stores s s' (storing env s a) := by
    intro j hj
    cases hr : s.readers[j]? with
    | some r => exact readerStep_stores env hr a hj
    | none =>
        refine ⟨Frame.refl s, ?_⟩
        obtain ⟨_, rfl⟩ | rfl | ⟨_, rfl⟩ | rfl | ⟨_, _, rfl⟩ | rfl | rfl := hj <;>
          simp [storing, hr, Stores]
  have hwriter : ∀ j, a = .acknowledge j ∨ (∃ look raises, a = .confirm j look raises) ∨
      (∃ look, a = .carry j look) ∨ a = .carried j ∨ a = .failWrite j ∨ a = .cancelWrite j →
      let s' := s.writers[j]?.elim s fun w => s.writerStep env j w a
      Frame s s' ∧ Stores s s' (storing env s a) := by
    intro j hj
    cases hw : s.writers[j]? with
    | some w => exact writerStep_stores env hw a hj
    | none =>
        refine ⟨Frame.refl s, ?_⟩
        obtain rfl | ⟨_, _, rfl⟩ | ⟨_, rfl⟩ | rfl | rfl | rfl := hj <;>
          simp [storing, hw, Stores]
  cases a with
  | advertise layout revision readable reachable => exact absurd rfl (ha _ _ _ _)
  | request reachable => exact requestRead_frame s reachable
  | pass seconds => exact ⟨⟨rfl, rfl, rfl, rfl, rfl⟩, rfl⟩
  | command number value coalesce =>
      simp only [step]
      split <;> exact ⟨⟨rfl, rfl, rfl, rfl, rfl⟩, rfl⟩
  | acknowledge j => exact hwriter j (by simp)
  | confirm j look raises => exact hwriter j (by simp)
  | carry j look => exact hwriter j (by simp)
  | carried j => exact hwriter j (by simp)
  | failWrite j => exact hwriter j (by simp)
  | cancelWrite j => exact hwriter j (by simp)
  | link j reachable => exact hreader j (by simp)
  | connected j => exact hreader j (by simp)
  | read j look => exact hreader j (by simp)
  | walked j => exact hreader j (by simp)
  | closed j raises reachable => exact hreader j (by simp)
  | failRead j => exact hreader j (by simp)
  | cancelRead j => exact hreader j (by simp)

/-! ## What an advertisement does -/

/-- Entry numbers follow the layout. -/
def Numbered (s : Cache) : Prop :=
  ∀ d, s.declaration = some d → d.entries = entriesFrom 1 d.layout

theorem layout_entriesFrom (k : ℕ) (ids : Bytes) :
    (entriesFrom k ids).map WritableEntry.objectId = ids := by
  induction ids generalizing k with
  | nil => rfl
  | cons id ids ih => simp [entriesFrom, ih]

theorem noticeRevision_frame (s : Cache) (revision : Option ℕ) (reachable : Bool) :
    (s.noticeRevision revision reachable).declaration = s.declaration ∧
      (s.noticeRevision revision reachable).revisionAdvertised =
        revision.or s.revisionAdvertised ∧
      (s.noticeRevision revision reachable).layouts = s.layouts ∧
      (s.noticeRevision revision reachable).seen = s.seen ∧
      (s.noticeRevision revision reachable).readable = s.readable ∧
      (s.noticeRevision revision reachable).values = s.values := by
  unfold noticeRevision
  cases revision with
  | none => exact ⟨rfl, rfl, rfl, rfl, rfl, rfl⟩
  | some r =>
      simp only
      split
      · exact ⟨rfl, rfl, rfl, rfl, rfl, rfl⟩
      · split
        · exact ⟨rfl, rfl, rfl, rfl, rfl, rfl⟩
        · obtain ⟨hframe, hvalues⟩ :=
            requestRead_frame { s with revisionAdvertised := some r } reachable
          exact ⟨hframe.declaration, hframe.revisionAdvertised, hframe.layouts, hframe.seen,
            hframe.readable, hvalues⟩

/-- A layout that was known: nothing but the revision and the records can be new. -/
structure Known (s s' : Cache) (revision : Option ℕ) : Prop where
  entries : s'.declaration.map Declaration.entries = s.declaration.map Declaration.entries
  revisionAdvertised : s'.revisionAdvertised = revision.or s.revisionAdvertised
  layouts : s'.layouts = s.layouts
  seen : s'.seen = s.seen ++ (revision.or s.revisionAdvertised).toList
  readable : s'.readable = s.readable
  values : s'.values = s.values

/-- A layout that was not. -/
structure Anew (s s' : Cache) (revision : Option ℕ) : Prop where
  revisionAdvertised : s'.revisionAdvertised = revision.or s.revisionAdvertised
  layouts : s'.layouts = s.layouts + 1
  seen : s'.seen = (revision.or s.revisionAdvertised).toList
  values : s.declaration.isSome → ∀ k, s'.values k = none
  first : s.declaration = none → s'.values = s.values

variable {layout : Bytes} {revision : Option ℕ} {readable : ℕ → Bool}

theorem advertise_declaration (s : Cache) (layout : Bytes) (revision : Option ℕ)
    (readable : ℕ → Bool) (reachable : Bool) :
    (s.advertise layout revision readable reachable).declaration =
      some ⟨entriesFrom 1 layout, revision⟩ :=
  (noticeRevision_frame _ revision reachable).1

theorem advertise_of_known (h : s.newLayout layout = false) :
    s.advertise layout revision readable reachable = noticeRevision
      { s with
        seen := s.seen ++ (revision.or s.revisionAdvertised).toList
        declaration := some ⟨entriesFrom 1 layout, revision⟩ } revision reachable := by
  obtain ⟨-, hsame⟩ := Bool.or_eq_false_iff.mp h
  simp only [advertise, hsame, record, h, Bool.false_eq_true, if_false]

theorem advertise_of_new (h : s.newLayout layout = true) :
    s.advertise layout revision readable reachable = noticeRevision
      { s with
        values := if s.layoutChanges layout then fun _ => none else s.values
        layouts := s.layouts + 1
        seen := (revision.or s.revisionAdvertised).toList
        readable := readable
        declaration := some ⟨entriesFrom 1 layout, revision⟩ } revision reachable := by
  have hemptied : ({ s with values := fun _ => none } : Cache).newLayout layout = true := h
  by_cases hchanges : s.layoutChanges layout = true
  · simp only [advertise, hchanges, record, hemptied, if_true]
  · simp only [advertise, hchanges, record, h, if_true, if_false, Bool.false_eq_true]

/-- The entries stay where the layout was known. -/
theorem known_entries (hnumbered : Numbered s) (h : s.newLayout layout = false) :
    some (entriesFrom 1 layout) = s.declaration.map Declaration.entries := by
  obtain ⟨hknown, hsame⟩ := Bool.or_eq_false_iff.mp h
  cases hdeclaration : s.declaration with
  | none => simp [hdeclaration] at hknown
  | some known =>
      have hlayout : layout = known.layout := by
        simpa [layoutChanges, hdeclaration] using hsame
      rw [Option.map_some, hnumbered known hdeclaration, hlayout]

theorem advertise_known (hnumbered : Numbered s) (h : s.newLayout layout = false) :
    Known s (s.advertise layout revision readable reachable) revision := by
  rw [advertise_of_known h]
  obtain ⟨hdeclaration, hadvertised, hlayouts, hseen, hreadable, hvalues⟩ := noticeRevision_frame
    { s with
      seen := s.seen ++ (revision.or s.revisionAdvertised).toList
      declaration := some ⟨entriesFrom 1 layout, revision⟩ } revision reachable
  refine ⟨?_, hadvertised, hlayouts, hseen, hreadable, hvalues⟩
  rw [hdeclaration]
  exact known_entries hnumbered h

theorem advertise_anew (h : s.newLayout layout = true) :
    Anew s (s.advertise layout revision readable reachable) revision := by
  rw [advertise_of_new h]
  obtain ⟨-, hadvertised, hlayouts, hseen, -, hvalues⟩ := noticeRevision_frame
    { s with
      values := if s.layoutChanges layout then fun _ => none else s.values
      layouts := s.layouts + 1
      seen := (revision.or s.revisionAdvertised).toList
      readable := readable
      declaration := some ⟨entriesFrom 1 layout, revision⟩ } revision reachable
  refine ⟨hadvertised, hlayouts, hseen, ?_, ?_⟩
  · intro hsome k
    have hchanges : s.layoutChanges layout = true := by
      cases hdeclaration : s.declaration with
      | none => simp [hdeclaration] at hsome
      | some known => simpa [newLayout, hdeclaration] using h
    exact (congrFun hvalues k).trans (by simp [hchanges])
  · intro hnone
    have hchanges : s.layoutChanges layout = false := by simp [layoutChanges, hnone]
    exact hvalues.trans (by simp [hchanges])

theorem numbered_advertise : Numbered (s.advertise layout revision readable reachable) := by
  intro d hd
  rw [advertise_declaration] at hd
  obtain rfl := Option.some.inj hd
  show entriesFrom 1 layout = entriesFrom 1 ((entriesFrom 1 layout).map WritableEntry.objectId)
  rw [layout_entriesFrom]

theorem Numbered.step (h : Numbered s) (env : Opening) (a : CacheAct) :
    Numbered (s.step env a) := by
  by_cases ha : ∃ layout revision readable reachable,
      a = .advertise layout revision readable reachable
  · obtain ⟨layout, revision, readable, reachable, rfl⟩ := ha
    exact numbered_advertise
  · push Not at ha
    intro d hd
    rw [(step_stores env s a ha).1.declaration] at hd
    exact h d hd

theorem numbered_start (remembered : Option (Bytes × Option ℕ)) (readable : ℕ → Bool) :
    Numbered (start remembered readable) := by
  intro d hd
  cases remembered with
  | none => simp [start] at hd
  | some known =>
      obtain rfl := Option.some.inj hd
      show entriesFrom 1 known.1 =
        entriesFrom 1 ((entriesFrom 1 known.1).map WritableEntry.objectId)
      rw [layout_entriesFrom]

/-! ## Current values -/

/-- The value was got for what the entry is declared as, under the present layout. -/
def OfLayout (s : Cache) (number : ℕ) (source : Source) : Prop :=
  s.declared number = some source.objectId ∧ source.layouts = s.layouts

/-- Every held value belongs to the current layout. -/
def Current (s : Cache) : Prop :=
  ∀ number held, s.values number = some held → ∃ source ∈ held.sources, OfLayout s number source

theorem declared_congr (h : s'.declaration.map Declaration.entries =
    s.declaration.map Declaration.entries) (number : ℕ) :
    s'.declared number = s.declared number := by
  unfold declared entry
  cases hs : s.declaration with
  | none =>
      rw [hs, Option.map_none, Option.map_eq_none_iff] at h
      rw [h]
  | some d =>
      rw [hs, Option.map_some, Option.map_eq_some_iff] at h
      obtain ⟨d', hd', hentries⟩ := h
      rw [hd']
      simp only [hentries]

theorem keep_sources (s : Cache) (number : ℕ) (value : Bytes) (source : Source) :
    ∃ held, (s.keep number value source).values number = some held ∧ source ∈ held.sources ∧
      held.value = value := by
  refine ⟨_, Function.update_self .., ?_, rfl⟩
  exact List.mem_append_right _ (List.mem_singleton_self source)

theorem keep_other {number number' : ℕ} (h : number' ≠ number) (value : Bytes) (source : Source) :
    (s.keep number value source).values number' = s.values number' := Function.update_of_ne h ..

theorem Current.stores (h : Current s) (hframe : Frame s s') {x : Option (ℕ × Source)}
    (hstores : Stores s s' x) (hx : ∀ y ∈ x, OfLayout s y.1 y.2) : Current s' := by
  have hof : ∀ number source, OfLayout s' number source ↔ OfLayout s number source := by
    intro number source
    have hdeclared : s'.declared number = s.declared number :=
      declared_congr (congrArg _ hframe.declaration) number
    unfold OfLayout
    rw [hdeclared, hframe.layouts]
  intro number held hheld
  simp only [hof]
  cases x with
  | none =>
      rw [show s'.values = s.values from hstores] at hheld
      exact h number held hheld
  | some x =>
      obtain ⟨value, hvalues⟩ := hstores
      rw [hvalues] at hheld
      by_cases hnumber : number = x.1
      · subst hnumber
        obtain ⟨held', hheld', hmem, -⟩ := keep_sources s x.1 value x.2
        obtain rfl : held = held' := Option.some.inj (hheld.symm.trans hheld')
        exact ⟨x.2, hmem, hx x rfl⟩
      · rw [keep_other hnumber] at hheld
        exact h number held hheld

theorem Current.advertise (h : Current s) (hnumbered : Numbered s) :
    Current (s.advertise layout revision readable reachable) := by
  cases hnew : s.newLayout layout with
  | false =>
      have hknown : Known s (s.advertise layout revision readable reachable) revision :=
        advertise_known hnumbered hnew
      intro number held hheld
      rw [hknown.values] at hheld
      obtain ⟨source, hmem, hdeclared, hlayouts⟩ := h number held hheld
      refine ⟨source, hmem, ?_, hlayouts.trans hknown.layouts.symm⟩
      rw [declared_congr hknown.entries, hdeclared]
  | true =>
      have hanew : Anew s (s.advertise layout revision readable reachable) revision :=
        advertise_anew hnew
      intro number held hheld
      cases hdeclaration : s.declaration with
      | none =>
          -- without a declaration nothing is held
          rw [hanew.first hdeclaration] at hheld
          obtain ⟨source, -, hdeclared, -⟩ := h number held hheld
          simp [declared, entry, hdeclaration] at hdeclared
      | some known =>
          rw [hanew.values (by simp [hdeclaration])] at hheld
          simp at hheld

structure LayoutInv (s : Cache) : Prop where
  current : Current s
  numbered : Numbered s

theorem LayoutInv.step (h : LayoutInv s) {a : CacheAct} (hbelongs : Belongs env s a) :
    LayoutInv (s.step env a) := by
  refine ⟨?_, h.numbered.step env a⟩
  by_cases ha : ∃ layout revision readable reachable,
      a = .advertise layout revision readable reachable
  · obtain ⟨layout, revision, readable, reachable, rfl⟩ := ha
    exact h.current.advertise h.numbered
  · push Not at ha
    obtain ⟨hframe, hstores⟩ := step_stores env s a ha
    exact h.current.stores hframe hstores hbelongs

/-- In every run whose steps store only what belongs to the current layout, every held value does
in every state reached. -/
theorem held_values_belong (env : Opening) (remembered : Option (Bytes × Option ℕ))
    (readable : ℕ → Bool) (acts : List CacheAct)
    (hbelongs : Runs.Along (step env) (Belongs env) (start remembered readable) acts) :
    Current (Runs.run (step env) (start remembered readable) acts) := by
  have hinit : LayoutInv (start remembered readable) := by
    refine ⟨?_, numbered_start remembered readable⟩
    intro number held hheld
    simp [start] at hheld
  exact (Runs.run_invariant (fun _ _ h hstep => h.step hstep) hinit hbelongs).current

/-- A lamp and a counter, read and written in clear. -/
def sampleOpening : Opening where
  table := fun id => if id = 0x1E ∨ id = 0x10 then some ("unsigned_integer", 1) else none
  describe := fun id => if id = 0x1E ∨ id = 0x10 then some "binary" else none
  aead := Aead.tagging [] []
  address := "C1:11:22:33:44:55".toList
  bindkey := none

/-- A command waits for its connection while the firmware changes, and what it wrote is shown as
the value of the new entry. -/
theorem value_held_for_another_object :
    let s := Runs.run (step sampleOpening) (start none fun _ => true)
      [.advertise [0x1E] none (fun _ => true) false, .command 1 [0x01] true,
        .advertise [0x10] none (fun _ => true) false, .acknowledge 0, .confirm 0 .writeOnly false]
    s.valueOf 1 = some [0x01] ∧ s.declared 1 = some 0x10 ∧ ¬ Current s := by
  refine ⟨by decide, by decide, ?_⟩
  intro hcurrent
  obtain ⟨source, hmem, hdeclared, -⟩ := hcurrent 1 ⟨[0x01], [⟨0x1E, 2, true, []⟩]⟩ (by decide)
  obtain rfl := List.mem_singleton.mp hmem
  exact absurd hdeclared (by decide)

/-- A command of the first layout that ends in time, a read of the second, and a command that is
answered there. -/
theorem held_values_belong_sample :
    Current (Runs.run (step sampleOpening) (start none fun _ => true)
      [.advertise [0x1E] (some 4) (fun _ => true) true, .command 1 [0x01] true, .acknowledge 0,
        .confirm 0 (.answer [0x1E, 0x01]) false, .cancelWrite 0,
        .advertise [0x10] (some 5) (fun _ => true) true, .link 0 true, .connected 0,
        .command 1 [0x00] true, .acknowledge 1, .cancelRead 0, .confirm 1 .writeOnly true]) :=
  held_values_belong sampleOpening none _ _ (by decide)

end BTHomeWritable.Receiver.Cache
