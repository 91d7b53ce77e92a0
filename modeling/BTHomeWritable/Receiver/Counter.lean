import BTHomeWritable.Lib.Runs
import BTHomeWritable.Receiver.Frames

/-!
# The receiver's write counter

The four operations of the coordinator that move the pair of counter and mark,
and the rule by which a restarted Home Assistant resumes.  `handed` lists the
marks passed to `on_counter`, which is all that a restart keeps.  The integers
are Python's: nothing wraps but the counter of a report.

A `History` is a coordinator with every counter it ever returned.  `HistoryInv` says
that the stored mark is ahead of what was returned, at most a stride ahead of the
counter, and that the pair is `Claimed` or untouched since the start; every operation
has its lemma, `HistoryInv.next` to `HistoryInv.restart`.

`issued_counters_ascend` is the law over every history: the counters only rise, and
each was returned after a mark above it had been handed over.
-/

namespace BTHomeWritable.Receiver

def COUNTER_STRIDE : ℤ := 64
def RESYNC_JUMP : ℤ := 100000
def COUNTER_EPOCH_SEED : Bool := true

/-- `_counter`, `_counter_mark` and the marks passed to `_on_counter` so far. -/
structure Counters where
  counter : ℤ
  mark : ℤ
  handed : List ℤ
  deriving DecidableEq

namespace Counters

/-- What a restart finds stored. -/
def stored (c : Counters) : ℤ := c.handed.getLastD 0

/-- Claims a stride above `counter`. -/
def claim (c : Counters) (counter : ℤ) : Counters where
  counter := counter
  mark := counter + COUNTER_STRIDE
  handed := c.handed ++ [counter + COUNTER_STRIDE]

def nextWriteCounter (c : Counters) : ℤ × Counters :=
  if c.counter + 1 ≥ c.mark then (c.counter + 1, c.claim (c.counter + 1))
  else (c.counter + 1, { c with counter := c.counter + 1 })

def resynchronise (c : Counters) : ℤ × Counters :=
  (c.counter + RESYNC_JUMP, c.claim (c.counter + RESYNC_JUMP))

/-- What `_adopt_counter` makes of the report once it is opened. -/
def adopt (c : Counters) : Option ℕ → Option ℤ × Counters
  | none => (none, c)
  | some reported =>
      let resumed : ℤ := ((reported : ℤ) + 1) % 2 ^ 32
      if resumed ≤ c.counter then (none, c) else (some resumed, c.claim resumed)

end Counters

/-- `_adopt_counter`. -/
def adoptCounter (aead : Aead) (bindkey : Bytes) (address : List Char) (c : Counters)
    (report challenge : Bytes) : Except PyError (Option ℤ × Counters) := do
  let reported ← openCounterReport aead report bindkey address challenge
  pure (c.adopt reported)

/-- `_starting_counter`, with `int(time.time())` as an argument. -/
def startingCounter (stored clock : ℤ) : ℤ :=
  if !COUNTER_EPOCH_SEED then stored else max stored clock

/-- A coordinator built anew over what `on_counter` had stored. -/
def Counters.restart (handed : List ℤ) (clock : ℤ) : Counters where
  counter := startingCounter (handed.getLastD 0) clock
  mark := startingCounter (handed.getLastD 0) clock
  handed := handed

/-! ## Histories -/

inductive CounterOp where
  | next
  | resynchronise
  | adopt (report challenge : Bytes)
  | restart (clock : ℤ)

/-- A counter that `next_write_counter` returned, and the marks handed over by then. -/
structure Issue where
  value : ℤ
  handed : List ℤ

/-- The coordinator as it stands, and every counter it ever returned. -/
structure History where
  counters : Counters
  issued : List Issue

namespace History

variable (aead : Aead) (bindkey : Bytes) (address : List Char)

/-- The first start: nothing stored yet. -/
def begin (clock : ℤ) : History := ⟨Counters.restart [] clock, []⟩

def step (h : History) : CounterOp → History
  | .next =>
      let next := h.counters.nextWriteCounter
      ⟨next.2, h.issued ++ [⟨next.1, next.2.handed⟩]⟩
  | .resynchronise => { h with counters := h.counters.resynchronise.2 }
  | .adopt report challenge =>
      match adoptCounter aead bindkey address h.counters report challenge with
      | .ok adopted => { h with counters := adopted.2 }
      | .error _ => h
  | .restart clock => { h with counters := Counters.restart h.counters.handed clock }

end History

/-! ## The invariant -/

/-- The mark is the stored one and ahead of the counter, or nothing was claimed since the start. -/
def Counters.Claimed (c : Counters) : Prop :=
  (c.mark = c.counter ∧ c.stored ≤ c.counter) ∨
    (c.counter < c.mark ∧ c.mark = c.stored ∧ c.mark ∈ c.handed)

structure HistoryInv (h : History) : Prop where
  claimed : h.counters.Claimed
  near : h.counters.stored ≤ h.counters.counter + COUNTER_STRIDE
  below : ∀ i ∈ h.issued, i.value ≤ h.counters.counter
  below_stored : ∀ i ∈ h.issued, i.value < h.counters.stored
  covered : ∀ i ∈ h.issued, ∃ mark ∈ i.handed, i.value < mark
  ascending : (h.issued.map Issue.value).Pairwise (· < ·)

@[simp] theorem stored_claim (c : Counters) (counter : ℤ) :
    (c.claim counter).stored = counter + COUNTER_STRIDE := by
  simp [Counters.claim, Counters.stored]

@[simp] theorem mem_handed_claim (c : Counters) (counter : ℤ) :
    counter + COUNTER_STRIDE ∈ (c.claim counter).handed := by
  simp [Counters.claim]

theorem claimed_claim (c : Counters) (counter : ℤ) : (c.claim counter).Claimed := by
  refine Or.inr ⟨?_, (stored_claim c counter).symm, mem_handed_claim c counter⟩
  simp [Counters.claim, COUNTER_STRIDE]

variable {h : History} {aead : Aead} {bindkey : Bytes} {address : List Char}

/-- A claim further up loses nothing. -/
theorem HistoryInv.claim (hinv : HistoryInv h) {counter : ℤ} (hup : h.counters.counter ≤ counter) :
    HistoryInv { h with counters := h.counters.claim counter } where
  claimed := claimed_claim _ _
  near := (stored_claim _ _).le
  below := fun i hi => (hinv.below i hi).trans hup
  below_stored := by
    intro i hi
    have hbelow := hinv.below i hi
    rw [stored_claim]
    unfold COUNTER_STRIDE
    omega
  covered := hinv.covered
  ascending := hinv.ascending

/-- The next counter may be returned once a mark ahead of it is stored. -/
theorem HistoryInv.issue {c : Counters} (hinv : HistoryInv h) (hclaimed : c.Claimed)
    (hcounter : c.counter = h.counters.counter + 1) (hmark : c.counter < c.mark)
    (hnear : c.stored ≤ c.counter + COUNTER_STRIDE) (hstored : h.counters.stored ≤ c.stored) :
    HistoryInv ⟨c, h.issued ++ [⟨h.counters.counter + 1, c.handed⟩]⟩ := by
  have hcovered : h.counters.counter + 1 < c.stored ∧ c.stored ∈ c.handed := by
    rcases hclaimed with ⟨hsame, -⟩ | ⟨hlt, hsame, hmem⟩
    · omega  -- the mark is ahead of the counter, so it was claimed
    · rw [← hsame, ← hcounter]
      exact ⟨hlt, hmem⟩
  refine
    { claimed := hclaimed
      near := hnear
      below := Runs.forall_mem_concat.mpr ⟨fun i hi => ?_, hcounter.ge⟩
      below_stored := Runs.forall_mem_concat.mpr
        ⟨fun i hi => (hinv.below_stored i hi).trans_le hstored, hcovered.1⟩
      covered := Runs.forall_mem_concat.mpr ⟨hinv.covered, c.stored, hcovered.2, hcovered.1⟩
      ascending := ?_ }
  · have hbelow := hinv.below i hi
    show i.value ≤ c.counter
    omega
  · rw [List.map_append, List.map_singleton, Runs.pairwise_concat]
    refine ⟨hinv.ascending, ?_⟩
    intro value hvalue
    obtain ⟨i, hi, rfl⟩ := List.mem_map.mp hvalue
    have hbelow := hinv.below i hi
    show i.value < h.counters.counter + 1
    omega

theorem HistoryInv.next (hinv : HistoryInv h) :
    HistoryInv (h.step aead bindkey address .next) := by
  have hnear := hinv.near
  simp only [History.step, Counters.nextWriteCounter]
  by_cases hreached : h.counters.counter + 1 ≥ h.counters.mark
  · simp only [if_pos hreached]
    refine hinv.issue (claimed_claim _ _) rfl ?_ (stored_claim _ _).le ?_
    · simp [Counters.claim, COUNTER_STRIDE]
    · rw [stored_claim]
      omega
  · simp only [if_neg hreached]
    -- below the mark, so the mark is one that was handed over
    rcases hinv.claimed with ⟨hfresh, -⟩ | ⟨hlt, hstored, hmem⟩
    · omega
    · have hbelow : h.counters.counter + 1 < h.counters.mark := by omega
      refine hinv.issue (Or.inr ⟨hbelow, hstored, hmem⟩) rfl hbelow ?_ le_rfl
      show h.counters.stored ≤ h.counters.counter + 1 + COUNTER_STRIDE
      omega

theorem HistoryInv.adopt (hinv : HistoryInv h) (reported : Option ℕ) :
    HistoryInv { h with counters := (h.counters.adopt reported).2 } := by
  cases reported with
  | none => exact hinv
  | some reported =>
      simp only [Counters.adopt]
      by_cases hbehind : ((reported : ℤ) + 1) % 2 ^ 32 ≤ h.counters.counter
      · rw [if_pos hbehind]
        exact hinv
      · rw [if_neg hbehind]
        exact hinv.claim (by omega)

/-- A restart resumes at or above everything stored, whatever the clock says. -/
theorem HistoryInv.restart (hinv : HistoryInv h) (clock : ℤ) :
    HistoryInv { h with counters := Counters.restart h.counters.handed clock } := by
  have hstored : h.counters.stored ≤ startingCounter h.counters.stored clock := by
    simp [startingCounter, COUNTER_EPOCH_SEED]
  refine
    { claimed := Or.inl ⟨rfl, hstored⟩
      near := ?_
      below := fun i hi => (hinv.below_stored i hi).le.trans hstored
      below_stored := hinv.below_stored
      covered := hinv.covered
      ascending := hinv.ascending }
  show h.counters.stored ≤ startingCounter h.counters.stored clock + COUNTER_STRIDE
  unfold COUNTER_STRIDE
  omega

theorem HistoryInv.step (hinv : HistoryInv h) (op : CounterOp) :
    HistoryInv (h.step aead bindkey address op) := by
  cases op with
  | next => exact hinv.next
  | resynchronise => exact hinv.claim (by simp [RESYNC_JUMP])
  | adopt report challenge =>
      simp only [History.step, adoptCounter]
      cases openCounterReport aead report bindkey address challenge with
      | error e => exact hinv
      | ok reported => exact hinv.adopt reported
  | restart clock => exact hinv.restart clock

theorem HistoryInv.begin (clock : ℤ) : HistoryInv (History.begin clock) where
  claimed := Or.inl ⟨rfl, by
    show (0 : ℤ) ≤ startingCounter 0 clock
    simp [startingCounter, COUNTER_EPOCH_SEED]⟩
  near := by
    show (0 : ℤ) ≤ startingCounter 0 clock + COUNTER_STRIDE
    simp only [startingCounter, COUNTER_EPOCH_SEED, COUNTER_STRIDE, Bool.not_true,
      Bool.false_eq_true, if_false]
    omega
  below := by simp [History.begin]
  below_stored := by simp [History.begin]
  covered := by simp [History.begin]
  ascending := by simp [History.begin]

/-- Over every history, however the clock runs across the restarts, the counters returned only
rise, and each was returned after a mark above it had been handed over. -/
theorem issued_counters_ascend (aead : Aead) (bindkey : Bytes) (address : List Char) (clock : ℤ)
    (ops : List CounterOp) :
    let h := Runs.run (History.step aead bindkey address) (History.begin clock) ops
    (h.issued.map Issue.value).Pairwise (· < ·) ∧
      ∀ i ∈ h.issued, ∃ mark ∈ i.handed, i.value < mark := by
  intro h
  have hstep : ∀ (h : History) (op : CounterOp), HistoryInv h → True →
      HistoryInv (h.step aead bindkey address op) := fun _ op hinv _ => hinv.step op
  have halong : Runs.Along (History.step aead bindkey address) (fun _ _ => True)
      (History.begin clock) ops := Runs.Along.of_forall fun _ _ => trivial
  have hinv : HistoryInv h := Runs.run_invariant hstep (HistoryInv.begin clock) halong
  exact ⟨hinv.ascending, hinv.covered⟩

end BTHomeWritable.Receiver
