import BTHomeWritable.Receiver.ReadFlags

/-!
# The value kept after a command

A command captures what is known of its entry before it waits for the link, and
the answer to its write is compared with that.  A read that has the link first can
make something else known.  What the command then keeps is what it would have kept
had it looked when its write went out, unless the answer is known at one of the
two moments and not at the other.  The read that the command carries passes its
entry by.

* `KeptAfter` is the value that what was known calls for, and `keptAfter_iff` the
  decision: a matter of the one answer and the two values known.
* `Settled` says that the value is there and the command still on the link; what
  happens on the rest of its connection keeps it (`Settled.step`), since the command
  has put the entry behind it (`writerStep_past`).
* `Sent` says that what was known when a write went out is on record.

`written_value_kept` starts from the confirmation and puts the two together.
-/

namespace BTHomeWritable.Receiver

/-- What an entry is worth after a command: what was written where the device still reports what
was known of it, and what the device reports where that is new. -/
structure KeptAfter (written : Bytes) (known : Option Bytes) (reported : Bytes)
    (kept : Option Bytes) : Prop where
  unchanged : known = some reported → kept = some written
  changed : known ≠ some reported → reported ≠ written → kept = some reported

namespace Cache

variable {env : Opening} {s s' : Cache} {i : ℕ} {o : Order} {layouts : ℕ} {raw reported : Bytes}

/-! ## The decision -/

theorem valueOf_keep (s : Cache) (number : ℕ) (value : Bytes) (source : Source) :
    (s.keep number value source).valueOf number = some value := by
  obtain ⟨held, hheld, -, hvalue⟩ := keep_sources s number value source
  rw [valueOf, hheld, Option.map_some, hvalue]

theorem valueOf_settled (s : Cache) (layouts : ℕ) (hcoalesce : o.coalesce = true)
    (answer : Option Bytes) :
    (s.settleWrittenValue o layouts answer).valueOf o.number =
      some ((settled o answer).getD o.value) := by
  unfold settleWrittenValue
  rw [if_pos hcoalesce]
  split
  · rename_i hnone
    rw [valueOf_keep, hnone, Option.getD_none]
  · rename_i answer' hsome
    rw [valueOf_keep, hsome, Option.getD_some]

/-- The rule, against the value that was captured. -/
theorem getD_settled (hcoalesce : o.coalesce = true) :
    (settled o (some reported)).getD o.value =
      if reported ≠ o.value ∧ o.previous = some reported then o.value else reported := by
  simp only [settled, hcoalesce, and_true]
  by_cases hvalue : reported = o.value
  · simp [hvalue]
  · by_cases hprevious : o.previous = some reported
    · simp [hvalue, hprevious]
    · have hchanged : some reported ≠ o.previous := Ne.symm hprevious
      simp [hvalue, hprevious, hchanged]

/-- The decision is the one the rule asks for exactly where the two moments agree on the answer. -/
theorem keptAfter_iff (hcoalesce : o.coalesce = true) (known : Option Bytes) :
    KeptAfter o.value known reported (some ((settled o (some reported)).getD o.value)) ↔
      reported = o.value ∨ (known = some reported ↔ o.previous = some reported) := by
  rw [getD_settled hcoalesce]
  by_cases hvalue : reported = o.value
  · subst hvalue
    simp only [ne_eq, not_true_eq_false, false_and, if_false, true_or, iff_true]
    exact ⟨fun _ => rfl, fun _ hne => absurd rfl hne⟩
  · have hvalue' : o.value ≠ reported := Ne.symm hvalue
    constructor
    · intro h
      right
      constructor
      · intro hknown
        by_contra hprevious
        have hkept := h.unchanged hknown
        simp [hvalue, hprevious] at hkept
      · intro hprevious
        by_contra hknown
        have hkept := h.changed hknown hvalue
        simp [hvalue, hprevious, hvalue'] at hkept
    · rintro (h | hiff)
      · exact absurd h hvalue
      · refine ⟨fun hknown => ?_, fun hknown _ => ?_⟩
        · rw [if_pos ⟨hvalue, hiff.1 hknown⟩]
        · rw [if_neg fun h => hknown (hiff.2 h.2)]

/-! ## The rest of the connection -/

/-- A command that has ended, or carries a read past entry `number`. -/
def PastEntry (number : ℕ) : Writer → Prop
  | .gone => True
  | .folding _ _ rest _ => ∀ e ∈ rest, e.entry ≠ number
  | _ => False

theorem valueOf_congr (h : s'.values = s.values) (number : ℕ) :
    s'.valueOf number = s.valueOf number := by
  rw [valueOf, valueOf, h]

theorem valueOf_of_stores {x : Option (ℕ × Source)} (h : Stores s s' x) {number : ℕ}
    (hx : ∀ y ∈ x, y.1 ≠ number) : s'.valueOf number = s.valueOf number := by
  cases x with
  | none => exact valueOf_congr h number
  | some x =>
      obtain ⟨value, hvalues⟩ := h
      rw [valueOf, valueOf, hvalues, keep_other (Ne.symm (hx x rfl))]

theorem decoding_entry {e : WritableEntry} {look : Look} :
    ∀ y ∈ decoding env s e look, y.1 = e.entry := by
  intro y hy
  unfold decoding at hy
  split at hy
  · split at hy
    · obtain rfl := Option.some.inj hy
      rfl
    · simp at hy
  · simp at hy

/-- What the device reports is settled, and a read that follows skips the entry. -/
theorem confirm_reported (s : Cache) (i layouts : ℕ) (raises : Bool)
    (hcoalesce : o.coalesce = true)
    (hopen : env.openRead o.entry raw = .ok (some reported)) :
    (s.confirm env i o layouts (.answer raw) raises).valueOf o.number =
        some ((settled o (some reported)).getD o.value) ∧
      ∃ w, (s.confirm env i o layouts (.answer raw) raises).writers = s.writers.set i w ∧
        PastEntry o.number w := by
  have hback : readBack env o.entry (.answer raw) = some (some reported) := by
    simp [readBack, CONFIRM_WRITES_BY_READING_BACK, hopen]
  have hsettled := valueOf_settled s layouts hcoalesce (some reported)
  obtain ⟨values, hvalues⟩ := settleWrittenValue_values s o layouts (some reported)
  rw [hvalues] at hsettled
  simp only [confirm, hback, hvalues]
  split
  · exact ⟨hsettled, .gone, rfl, trivial⟩
  · split
    · unfold carryRead
      split
      · exact ⟨hsettled, .gone, rfl, trivial⟩
      · refine ⟨hsettled, _, rfl, ?_⟩
        intro e he
        have hskip := (List.mem_filter.1 he).2
        simpa using hskip
    · exact ⟨hsettled, .gone, rfl, trivial⟩

/-- The read that a command carries leaves the entry alone. -/
theorem writerStep_past {number : ℕ} {w : Writer} (hw : PastEntry number w)
    (hi : s.writers[i]? = some w) (a : CacheAct) :
    (s.writerStep env i w a).valueOf number = s.valueOf number ∧
      ∃ w', (s.writerStep env i w a).writers[i]? = some w' ∧ PastEntry number w' := by
  have hlt : i < s.writers.length := (List.getElem?_eq_some_iff.1 hi).1
  have hstays : s.valueOf number = s.valueOf number ∧
      ∃ w', s.writers[i]? = some w' ∧ PastEntry number w' := ⟨rfl, w, hi, hw⟩
  have hends : ∃ w', (s.writers.set i .gone)[i]? = some w' ∧ PastEntry number w' :=
    ⟨.gone, List.getElem?_set_self hlt, trivial⟩
  have hcarryEnds : ∀ c was done, (s.carryEnds i c was done).valueOf number = s.valueOf number ∧
      ∃ w', (s.carryEnds i c was done).writers[i]? = some w' ∧ PastEntry number w' := by
    intro c was done
    cases done with
    | true => exact ⟨rfl, hends⟩
    | false => exact ⟨rfl, hends⟩
  cases w with
  | begun | acknowledged => exact hw.elim
  | gone =>
      cases a with
      | failWrite | cancelWrite => exact ⟨rfl, hends⟩
      | _ => exact hstays
  | folding c was rest failed =>
      cases a with
      | carry j look =>
          cases rest with
          | nil => exact hstays
          | cons e rest =>
              -- what is left to read is part of what was left before
              have hpast : PastEntry number (.folding c was rest failed) :=
                fun e' he' => hw e' (List.mem_cons_of_mem e he')
              have hvalue : (s.readEntry env e look).1.valueOf number = s.valueOf number := by
                refine valueOf_of_stores (readEntry_stores env s e look).2 ?_
                intro y hy
                rw [decoding_entry y hy]
                exact hw e List.mem_cons_self
              obtain ⟨values, hvalues⟩ := readEntry_values env s e look
              simp only [writerStep]
              cases hread : s.readEntry env e look with
              | mk s₁ result =>
                  rw [hread] at hvalues hvalue
                  subst hvalues
                  cases result with
                  | ok refused =>
                      exact ⟨hvalue, .folding c was rest (failed || refused),
                        List.getElem?_set_self hlt, hpast⟩
                  | error result => exact ⟨hvalue, hends⟩
      | carried j =>
          cases rest with
          | nil => exact hcarryEnds c was (!failed)
          | cons e rest => exact hstays
      | failWrite j => exact hcarryEnds c was false
      | cancelWrite j => exact ⟨rfl, hends⟩
      | _ => exact hstays

theorem advertise_values {layout : Bytes} {revision : Option ℕ} {readable : ℕ → Bool}
    {reachable : Bool} (h : s.layoutChanges layout = false) :
    (s.advertise layout revision readable reachable).values = s.values := by
  cases hnew : s.newLayout layout with
  | false =>
      rw [advertise_of_known hnew]
      exact (noticeRevision_frame _ revision reachable).2.2.2.2.2
  | true =>
      rw [advertise_of_new hnew]
      refine (noticeRevision_frame _ revision reachable).2.2.2.2.2.trans ?_
      simp only [h, Bool.false_eq_true, if_false]

theorem advertise_writers (s : Cache) (layout : Bytes) (revision : Option ℕ)
    (readable : ℕ → Bool) (reachable : Bool) :
    (s.advertise layout revision readable reachable).writers = s.writers := by
  obtain ⟨s₁, hsame, hresult | hresult⟩ := s.advertise_tasks layout revision readable reachable
  · rw [hresult, hsame.writers]
  · rw [hresult, (s₁.requestRead_keeps reachable).1, hsame.writers]

/-- A command that is not acknowledged stays so, ends, or is acknowledged. -/
theorem writerStep_unanswered (env : Opening) (s : Cache) (i : ℕ) {w : Writer}
    (hw : w.answered = false) (a : CacheAct) :
    s.writerStep env i w a = s ∨ s.writerStep env i w a = s.setWriter i .gone ∨
      ∃ k, a = .acknowledge k := by
  cases w with
  | acknowledged | folding => simp [Writer.answered] at hw
  | begun o =>
      cases a with
      | acknowledge k => exact Or.inr (Or.inr ⟨k, rfl⟩)
      | failWrite | cancelWrite => exact Or.inr (Or.inl rfl)
      | _ => exact Or.inl rfl
  | gone =>
      cases a with
      | failWrite | cancelWrite => exact Or.inr (Or.inl rfl)
      | _ => exact Or.inl rfl

/-- A command is answered by an acknowledgement and nothing else. -/
theorem answered_step {a : CacheAct} (ha : ∀ j, a ≠ .cancelRead j) {j : ℕ} {w : Writer}
    (hw : (s.step env a).writers[j]? = some w) (hanswered : w.answered = true) :
    (∃ w₀, s.writers[j]? = some w₀ ∧ w₀.answered = true) ∨ ∃ k, a = .acknowledge k := by
  have hsame : (s.step env a).writers = s.writers →
      (∃ w₀, s.writers[j]? = some w₀ ∧ w₀.answered = true) ∨ ∃ k, a = .acknowledge k :=
    fun hwriters => Or.inl ⟨w, hwriters ▸ hw, hanswered⟩
  have hreader : ∀ k, s.step env a = s.readers[k]?.elim s (fun r => s.readerStep env k r a) →
      (s.step env a).writers = s.writers := by
    intro k hstep
    rw [hstep]
    cases hr : s.readers[k]? with
    | none => rfl
    | some r =>
        rcases readerStep_moves env s k r a ha with hsame | ⟨-, r', hmoves⟩
        · rw [Option.elim_some, hsame]
        · exact hmoves.writers
  have hwriter : ∀ k, s.step env a = s.writers[k]?.elim s (fun w => s.writerStep env k w a) →
      (∃ w₀, s.writers[j]? = some w₀ ∧ w₀.answered = true) ∨ ∃ k, a = .acknowledge k := by
    intro k hstep
    cases hw₀ : s.writers[k]? with
    | none => exact hsame (by rw [hstep, hw₀, Option.elim_none])
    | some w₀ =>
        rw [hw₀, Option.elim_some] at hstep
        -- of the writers only the one whose step it is moves
        by_cases hj : k = j
        · subst hj
          cases hold : w₀.answered with
          | true => exact Or.inl ⟨w₀, hw₀, hold⟩
          | false =>
              rcases writerStep_unanswered env s k hold a with hstay | hends | hacknowledge
              · exact hsame (by rw [hstep, hstay])
              · rw [hstep, hends, setWriter,
                  List.getElem?_set_self (List.getElem?_eq_some_iff.1 hw₀).1] at hw
                obtain rfl := Option.some.inj hw
                simp [Writer.answered] at hanswered
              · exact Or.inr hacknowledge
        · rcases writerStep_moves env s k w₀ a with hstay | ⟨w', hmoves⟩
          · exact hsame (by rw [hstep, hstay])
          · rw [hstep, hmoves.writers, List.getElem?_set_ne hj] at hw
            exact Or.inl ⟨w, hw, hanswered⟩
  cases a with
  | advertise layout revision readable reachable =>
      exact hsame (s.advertise_writers layout revision readable reachable)
  | request reachable => exact hsame (s.requestRead_keeps reachable).1
  | pass seconds => exact hsame rfl
  | command number value coalesce =>
      simp only [step] at hw
      split at hw
      · exact Or.inl ⟨w, hw, hanswered⟩
      · rcases Nat.lt_trichotomy j s.writers.length with hlt | rfl | hgt
        · rw [List.getElem?_append_left hlt] at hw
          exact Or.inl ⟨w, hw, hanswered⟩
        · rw [List.getElem?_concat_length] at hw
          obtain rfl := Option.some.inj hw
          simp [Writer.answered] at hanswered
        · rw [List.getElem?_eq_none
            (by simp only [List.length_append, List.length_singleton]; omega)] at hw
          simp at hw
  | link k reachable => exact hsame (hreader k rfl)
  | connected k => exact hsame (hreader k rfl)
  | read k look => exact hsame (hreader k rfl)
  | walked k => exact hsame (hreader k rfl)
  | closed k raises reachable => exact hsame (hreader k rfl)
  | failRead k => exact hsame (hreader k rfl)
  | cancelRead k => exact absurd rfl (ha k)
  | acknowledge k => exact Or.inr ⟨k, rfl⟩
  | confirm k look raises => exact hwriter k rfl
  | carry k look => exact hwriter k rfl
  | carried k => exact hwriter k rfl
  | failWrite k => exact hwriter k rfl
  | cancelWrite k => exact hwriter k rfl

end Cache

namespace Turns

variable {env : Opening} {s : Turns} {i number : ℕ} {v : Option Bytes}

/-- Command `i` is on the link, and the value of its entry is settled. -/
structure Settled (s : Turns) (i number : ℕ) (v : Option Bytes) : Prop where
  inside : s.inside = some (.writer i)
  writer : ∃ w, s.cache.writers[i]? = some w ∧ Cache.PastEntry number w
  value : s.cache.valueOf number = v

/-- Before command `i` is out of the link, and under one layout. -/
def during (i : ℕ) (s : Turns) : TurnAct → Bool
  | .act (.advertise layout _ _ _) => !s.cache.layoutChanges layout
  | .leave j => j ≠ i
  | _ => true

theorem Settled.cache (h : Settled s i number v) {a : CacheAct}
    (hinside : s.insideAfter (s.cache.step env a) a = s.inside)
    (hwriter : ∃ w, (s.cache.step env a).writers[i]? = some w ∧ Cache.PastEntry number w)
    (hvalue : (s.cache.step env a).valueOf number = s.cache.valueOf number) :
    Settled (s.take env a) i number v :=
  ⟨hinside.trans h.inside, hwriter, hvalue.trans h.value⟩

theorem Settled.take (h : Settled s i number v) {a : CacheAct} (hallows : s.allows a = true)
    (hduring : during i s (.act a) = true) : Settled (s.take env a) i number v := by
  obtain ⟨w, hw, hpast⟩ := h.writer
  have hsame : (s.cache.step env a).writers = s.cache.writers →
      ∃ w, (s.cache.step env a).writers[i]? = some w ∧ Cache.PastEntry number w := by
    intro hwriters
    exact ⟨w, hwriters ▸ hw, hpast⟩
  have hwriter : ∀ j, s.inside = some (.writer j) →
      s.cache.step env a =
        s.cache.writers[j]?.elim s.cache (fun w => s.cache.writerStep env j w a) →
      s.insideAfter (s.cache.step env a) a = s.inside → Settled (s.take env a) i number v := by
    intro j hj hstep hinside
    obtain rfl : i = j := by simpa [h.inside] using hj
    rw [hw, Option.elim_some] at hstep
    obtain ⟨hvalue, hwriter⟩ := Cache.writerStep_past hpast hw a
    exact h.cache hinside (hstep ▸ hwriter) (hstep ▸ hvalue)
  have hof : ∀ v : Visitor, decide (s.inside = some v) = true → s.inside = some v :=
    fun _ hv => of_decide_eq_true hv
  -- readers are not allowed while the command is inside, and other commands do not store
  cases a with
  | advertise layout revision readable reachable =>
      refine h.cache rfl (hsame ?_) (Cache.valueOf_congr ?_ number)
      · exact s.cache.advertise_writers layout revision readable reachable
      · exact Cache.advertise_values (by simpa [during] using hduring)
  | request reachable =>
      refine h.cache rfl (hsame (s.cache.requestRead_keeps reachable).1) ?_
      exact Cache.valueOf_congr (Cache.requestRead_frame s.cache reachable).2 number
  | pass seconds => exact h.cache rfl (hsame rfl) rfl
  | command number' value coalesce =>
      refine h.cache rfl ?_ ?_
      · simp only [Cache.step]
        split
        · exact ⟨w, hw, hpast⟩
        · refine ⟨w, ?_, hpast⟩
          exact (List.getElem?_append_left (List.getElem?_eq_some_iff.1 hw).1).trans hw
      · simp only [Cache.step]
        split <;> rfl
  | link j reachable => simp [allows, h.inside] at hallows
  | connected j => simp [allows, h.inside] at hallows
  | read j look => simp [allows, h.inside] at hallows
  | walked j => simp [allows, h.inside] at hallows
  | closed j raises reachable => simp [allows, h.inside] at hallows
  | failRead j => simp [allows, h.inside] at hallows
  | acknowledge j => exact hwriter j (hof _ (Bool.and_eq_true_iff.1 hallows).1) rfl rfl
  | confirm j look raises => exact hwriter j (hof _ hallows) rfl rfl
  | carry j look => exact hwriter j (hof _ hallows) rfl rfl
  | carried j => exact hwriter j (hof _ hallows) rfl rfl
  | failWrite j => exact hwriter j (hof _ hallows) rfl rfl
  | cancelWrite j => simp [allows] at hallows
  | cancelRead j => simp [allows] at hallows

theorem Settled.step (h : Settled s i number v) {a : TurnAct} (hduring : during i s a = true) :
    Settled (s.step env a) i number v := by
  cases a with
  | act a =>
      simp only [Turns.step]
      split
      · rename_i hallows
        exact h.take hallows hduring
      · exact h
  | enter j =>
      simp only [Turns.step, h.inside]
      exact h
  | send j =>
      simp only [Turns.step]
      split
      · split
        · exact ⟨h.inside, h.writer, h.value⟩
        · exact h
      · exact h
  | leave j =>
      have hj : j ≠ i := by simpa [during] using hduring
      simp only [Turns.step]
      split
      · rw [if_neg (by simpa [h.inside] using Ne.symm hj)]
        exact h
      · exact h
  | enterOther =>
      simp only [Turns.step, h.inside, Option.isNone_some, Bool.false_eq_true, if_false]
      exact h
  | leaveOther =>
      simp only [Turns.step, h.inside, Option.some.injEq, reduceCtorEq, if_false]
      exact h

/-! ## What was known when the write went out -/

/-- The write of a command that is acknowledged has gone out. -/
def Sent (s : Turns) : Prop :=
  ∀ (j : ℕ) (w : Writer), s.cache.writers[j]? = some w → w.answered = true → s.sent.isSome = true

theorem take_sent (env : Opening) (s : Turns) (a : CacheAct) : (s.take env a).sent = s.sent := by
  show (s.record (s.cache.step env a) a).sent = s.sent
  unfold record
  split
  · simp only
    split <;> rfl
  · split <;> rfl
  · split <;> rfl
  · split <;> rfl

theorem Sent.take (h : Sent s) {a : CacheAct} (hallows : s.allows a = true) :
    Sent (s.take env a) := by
  intro j w hw hanswered
  rw [take_sent]
  have ha : ∀ k, a ≠ .cancelRead k := by
    rintro k rfl
    simp [allows] at hallows
  rcases Cache.answered_step ha hw hanswered with ⟨w₀, hw₀, hold⟩ | ⟨k, rfl⟩
  · exact h j w₀ hw₀ hold
  · exact (Bool.and_eq_true_iff.1 hallows).2

theorem Sent.step (h : Sent s) (hflags : FlagsInv s) (a : TurnAct) : Sent (s.step env a) := by
  -- nobody is answered while nobody is inside
  have hnobody : s.inside = none → ∀ s' : Turns, s'.cache = s.cache → Sent s' := by
    intro hinside s' hcache j w hw hanswered
    have hj := hflags.answered j w (hcache ▸ hw) hanswered
    simp [hinside] at hj
  have hsame : ∀ s' : Turns, s'.cache = s.cache → s'.sent = s.sent → Sent s' := by
    intro s' hcache hsent j w hw hanswered
    rw [hsent]
    exact h j w (hcache ▸ hw) hanswered
  cases a with
  | act a =>
      simp only [Turns.step]
      split
      · rename_i hallows
        exact h.take hallows
      · exact h
  | enter j =>
      simp only [Turns.step]
      split
      · rename_i hinside _
        exact hnobody hinside _ rfl
      · exact h
  | send j =>
      simp only [Turns.step]
      split
      · split
        · exact fun _ _ _ _ => rfl
        · exact h
      · exact h
  | leave j =>
      simp only [Turns.step]
      split
      · split
        · exact hsame _ rfl rfl
        · exact h
      · exact h
  | enterOther =>
      simp only [Turns.step]
      split
      · exact hsame _ rfl rfl
      · exact h
  | leaveOther =>
      simp only [Turns.step]
      split
      · exact hsame _ rfl rfl
      · exact h

theorem sent_run (env : Opening) (remembered : Option (Bytes × Option ℕ)) (readable : ℕ → Bool)
    (acts : List TurnAct) : Sent (Runs.run (step env) (start remembered readable) acts) := by
  have hstep : ∀ s a, FlagsInv s ∧ Sent s → True → FlagsInv (step env s a) ∧ Sent (step env s a) :=
    fun s a h _ => ⟨h.1.step a, h.2.step h.1 a⟩
  have hinit : FlagsInv (start remembered readable) ∧ Sent (start remembered readable) :=
    ⟨flagsInv_start remembered readable, by simp [Sent, start, Cache.start]⟩
  have hany : Runs.Along (step env) (fun _ _ => True) (start remembered readable) acts :=
    Runs.Along.of_forall (fun _ _ => trivial)
  exact (Runs.run_invariant hstep hinit hany).2

/-- From the answer on, to the end of the connection. -/
theorem settled_of_confirm (h : FlagsInv s) {o : Order} {layouts : ℕ} {raw reported : Bytes}
    {raises : Bool} (hw : s.cache.writers[i]? = some (.acknowledged o layouts))
    (hcoalesce : o.coalesce = true) (hopen : env.openRead o.entry raw = .ok (some reported)) :
    Settled (s.step env (.act (.confirm i (.answer raw) raises))) i o.number
      (some ((Cache.settled o (some reported)).getD o.value)) := by
  have hinside : s.inside = some (.writer i) := h.answered i _ hw rfl
  have hlt : i < s.cache.writers.length := (List.getElem?_eq_some_iff.1 hw).1
  have hcache : (s.step env (.act (.confirm i (.answer raw) raises))).cache =
      s.cache.confirm env i o layouts (.answer raw) raises := by
    simp only [Turns.step, allows, hinside, decide_true, if_true, take, Cache.step, hw,
      Option.elim_some, Cache.writerStep]
  obtain ⟨hvalue, w, hwriters, hpast⟩ :=
    Cache.confirm_reported s.cache i layouts raises hcoalesce hopen
  refine ⟨?_, ⟨w, ?_, hpast⟩, ?_⟩
  · simp only [Turns.step, allows, hinside, decide_true, if_true, take, insideAfter]
  · rw [hcache, hwriters, List.getElem?_set_self hlt]
  · rw [hcache, hvalue]

/-- A command whose answer can be opened keeps, to the end of its connection, what the value known
when its write went out calls for, exactly if the answer is what was written, or was known at both
moments or at neither. -/
theorem written_value_kept (env : Opening) (remembered : Option (Bytes × Option ℕ))
    (readable : ℕ → Bool) (acts : List TurnAct) (i : ℕ) (o : Order) (layouts : ℕ)
    (raw reported : Bytes) (raises : Bool)
    (hw : (Runs.run (step env) (start remembered readable) acts).cache.writers[i]? =
      some (.acknowledged o layouts))
    (hcoalesce : o.coalesce = true) (hopen : env.openRead o.entry raw = .ok (some reported)) :
    ∃ known, (Runs.run (step env) (start remembered readable) acts).sent = some known ∧
      ((∀ rest, Runs.Along (step env) (fun s a => during i s a = true)
          (Runs.run (step env) (start remembered readable)
            (acts ++ [.act (.confirm i (.answer raw) raises)])) rest →
        KeptAfter o.value known reported
          ((Runs.run (step env) (start remembered readable)
            (acts ++ [.act (.confirm i (.answer raw) raises)] ++ rest)).cache.valueOf
              o.number)) ↔
      reported = o.value ∨ (known = some reported ↔ o.previous = some reported)) := by
  obtain ⟨known, hknown⟩ :=
    Option.isSome_iff_exists.1 (sent_run env remembered readable acts i _ hw rfl)
  refine ⟨known, hknown, ?_⟩
  rw [← Cache.keptAfter_iff hcoalesce known]
  have hflags := flagsInv_run env remembered readable acts
  have hsettled : Settled (Runs.run (step env) (start remembered readable)
      (acts ++ [.act (.confirm i (.answer raw) raises)])) i o.number
      (some ((Cache.settled o (some reported)).getD o.value)) := by
    rw [Runs.run_append]
    exact settled_of_confirm hflags hw hcoalesce hopen
  have hrun : ∀ rest, Runs.Along (step env) (fun s a => during i s a = true)
      (Runs.run (step env) (start remembered readable)
        (acts ++ [.act (.confirm i (.answer raw) raises)])) rest →
      (Runs.run (step env) (start remembered readable)
        (acts ++ [.act (.confirm i (.answer raw) raises)] ++ rest)).cache.valueOf o.number =
        some ((Cache.settled o (some reported)).getD o.value) := by
    intro rest halong
    have hstep : ∀ s a,
        Settled s i o.number (some ((Cache.settled o (some reported)).getD o.value)) →
        during i s a = true →
        Settled (step env s a) i o.number (some ((Cache.settled o (some reported)).getD o.value)) :=
      fun s a h ha => h.step ha
    rw [Runs.run_append]
    exact (Runs.run_invariant hstep hsettled halong).value
  -- the value stays to the end of the connection, so its first moment decides
  constructor
  · intro hall
    have hnow := hall [] trivial
    rwa [hrun [] trivial] at hnow
  · intro hkept rest halong
    rw [hrun rest halong]
    exact hkept

/-- A read has the link while a command waits, and finds a knob turned from 0 to 5.  The command
writes 9, the device still reports 5, and 5 is what is kept. -/
theorem unchanged_answer_kept :
    let s := Runs.run (step Cache.sampleOpening) (start none fun _ => true)
      [.act (.advertise [0x10] (some 4) (fun _ => true) true), .act (.link 0 true),
        .act (.connected 0), .act (.read 0 (.answer [0x10, 0x00])), .act (.walked 0),
        .act (.closed 0 false true), .act (.advertise [0x10] (some 5) (fun _ => true) true),
        .act (.link 1 true), .act (.command 1 [0x09] true), .act (.connected 1),
        .act (.read 1 (.answer [0x10, 0x05])), .act (.walked 1), .act (.closed 1 false true),
        .enter 0, .send 0, .act (.acknowledge 0)]
    s.sent = some (some [0x05]) ∧ ¬ KeptAfter [0x09] (some [0x05]) [0x05]
      ((s.step Cache.sampleOpening
        (.act (.confirm 0 (.answer [0x10, 0x05]) false))).cache.valueOf 1) := by
  refine ⟨by decide, ?_⟩
  intro hkept
  exact absurd (hkept.unchanged rfl) (by decide)

/-- A command is answered with the value its entry had, and reads the other entry on its way out. -/
theorem written_value_kept_sample :
    KeptAfter [0x09] (some [0x00]) [0x00]
      ((Runs.run (step Cache.sampleOpening) (start none fun _ => true)
        ([.act (.advertise [0x10, 0x1E] (some 4) (fun _ => true) true), .act (.link 0 true),
          .act (.connected 0), .act (.read 0 (.answer [0x10, 0x00])),
          .act (.read 0 (.answer [0x1E, 0x00])), .act (.walked 0), .act (.closed 0 false true),
          .act (.command 1 [0x09] true), .enter 0, .send 0,
          .act (.advertise [0x10, 0x1E] (some 5) (fun _ => true) true), .act (.acknowledge 0)] ++
        [.act (.confirm 0 (.answer [0x10, 0x00]) false)] ++
        [.act (.carry 0 (.answer [0x1E, 0x01])), .act (.carried 0)])).cache.valueOf 1) := by
  obtain ⟨known, hsent, hkept⟩ := written_value_kept Cache.sampleOpening none (fun _ => true)
    [.act (.advertise [0x10, 0x1E] (some 4) (fun _ => true) true), .act (.link 0 true),
      .act (.connected 0), .act (.read 0 (.answer [0x10, 0x00])),
      .act (.read 0 (.answer [0x1E, 0x00])), .act (.walked 0), .act (.closed 0 false true),
      .act (.command 1 [0x09] true), .enter 0, .send 0,
      .act (.advertise [0x10, 0x1E] (some 5) (fun _ => true) true), .act (.acknowledge 0)]
    0 ⟨1, [0x09], true, ⟨1, 0x10⟩, some [0x00]⟩ 1 [0x10, 0x00] [0x00] false rfl rfl (by decide)
  obtain rfl : some [0x00] = known := Option.some.inj hsent
  exact hkept.2 (Or.inr Iff.rfl) _ (by decide)

end Turns
end BTHomeWritable.Receiver
