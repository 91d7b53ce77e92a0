import BTHomeWritable.Receiver.QueueShape

/-!
# The queue comes to rest

`work` bounds what is left to do.  A call adds to it; every other step that
changes anything takes some away (`step_work`), and as long as the queue is not at
rest there is such a step to take (`exists_step_of_not_resting`).

It is a sum: `Flush.weight` for the place the flush task has reached, and `backlog`,
with a share for each call that waits to enter or is pending, large enough to pay
for the steps it may cost and the flush task it may start.

The last section is about a run: the calls a queue has taken are those of the
run's steps, in order (`calls_run`).
-/

namespace BTHomeWritable.Receiver

open Overtaking (Mark entries pops)

/-- Steps the flush task may take before it comes back to its lock. -/
def Flush.weight : Flush → ℕ
  | .acquiring => 2
  | .writing _ false => 4
  | .writing _ true => 3
  | .stopping => 1
  | .ended => 0

def QueueAct.isCall : QueueAct → Bool
  | .call .. => true
  | _ => false

/-- What `async_write` is called with. -/
def QueueAct.asked : QueueAct → Option (ℤ × Bytes × Bool)
  | .call entry value coalesce => some (entry, value, coalesce)
  | _ => none

def Queued.asked (c : Queued) : ℤ × Bytes × Bool := (c.entry, c.value, c.coalesce)

namespace Queue

/-- The commands still to be taken through the queue, by the steps each of them may cost. -/
def backlog (q : Queue) : ℕ := 6 * q.waitingCalls.length + 3 * q.pending.length

def work (q : Queue) : ℕ := q.backlog + q.current.weight

/-- Nobody waits for the lock and no flush task is at work. -/
def Resting (q : Queue) : Prop := q.lock = [] ∧ q.current = .ended

variable {q : Queue} {i : ℕ} {t : Flush} {c : Queued} (address : String)

theorem work_startFlush_le (q : Queue) : work q.startFlush ≤ work q + 2 := by
  rcases startFlush_cases q with ⟨-, hstart⟩ | ⟨-, hstart⟩
  · rw [hstart]
    simp [work, backlog, waitingCalls, current, Flush.weight, List.filterMap_cons]
  · rw [hstart]
    omega

theorem work_enter_le (q : Queue) (c : Queued) : work (q.enter c) ≤ work q + 5 := by
  have hkept := List.length_filter_le (fun item => !displaces c item) q.pending
  rw [enter_eq]
  refine (work_startFlush_le _).trans ?_
  -- one more is pending, and those displaced are gone
  simp only [work, backlog, waitingCalls, current, List.length_append, List.length_singleton]
  omega

theorem work_strand_le (h : Running q i) : work (q.strand address i) ≤ backlog q := by
  unfold strand
  rw [settleAll_eq, work, current_set h.last rfl]
  simp [backlog, waitingCalls, Flush.weight]

theorem work_wait (h : Running q i) (t : Flush) :
    work { q with tasks := q.tasks.set i t, lock := q.lock ++ [.flush i] } =
      backlog q + t.weight := by
  rw [work, current_set h.last rfl]
  simp [backlog, waitingCalls, List.filterMap_cons]

theorem work_stop_le (h : Running q i) : work (q.stop address i) ≤ backlog q + 1 := by
  unfold stop
  by_cases hlock : q.lock = []
  · rw [if_pos hlock]
    exact (work_strand_le address h).trans (by omega)
  · rw [if_neg hlock, work_wait h]
    rfl

theorem work_take_le (h : Running q i) : work (q.take address i) ≤ backlog q + 1 := by
  unfold take
  cases hpending : q.pending with
  | nil => exact work_stop_le address h
  | cons c rest =>
      rw [work, current_set h.last rfl]
      simp only [backlog, waitingCalls, hpending, List.length_cons, Flush.weight]
      omega

theorem work_loop_le (h : Running q i) : work (q.loop address i) ≤ backlog q + 2 := by
  unfold loop
  by_cases hlock : q.lock = []
  · rw [if_pos hlock]
    exact (work_take_le address h).trans (by omega)
  · rw [if_neg hlock, work_wait h]
    rfl

@[simp] theorem backlog_settle (r : Except WriteError Unit) (w : ℕ) :
    backlog (q.settle r w) = backlog q := by
  simp [backlog, waitingCalls]

@[simp] theorem backlog_done (c : Queued) (raises : Bool) :
    backlog (q.done c raises) = backlog q := by
  simp [backlog, waitingCalls]

theorem work_at (hlast : i + 1 = q.tasks.length) (ht : q.tasks[i]? = some t) :
    work q = backlog q + t.weight := by
  rw [work, current_of_getElem? hlast ht]

/-- Leaving the lock takes no command along. -/
theorem Shape.backlog_erase (h : Shape q) (ht : q.tasks[i]? = some t) (hat : t.atLock = true) :
    backlog { q with lock := q.lock.erase (.flush i) } = backlog q := by
  simp only [backlog, h.waitingCalls_erase ht hat]

/-- Whoever is first at the lock has something to do there. -/
theorem work_grant_lt (h : Shape q) (hlock : q.lock ≠ []) :
    work (q.step address .grant) < work q := by
  obtain ⟨first, rest, hfirst⟩ := List.exists_cons_of_ne_nil hlock
  cases first with
  | call c =>
      have hentered := work_enter_le { q with lock := rest } c
      have hbefore : work q = work { q with lock := rest } + 6 := by
        simp only [work, backlog, waitingCalls, current, hfirst, List.filterMap_cons, call?_call,
          List.length_cons]
        omega
      simp only [step, hfirst]
      omega
  | flush i =>
      have hi : i ∈ q.waitingFlushes := by simp [waitingFlushes, hfirst]
      obtain ⟨t, ht, hat⟩ := h.atLock_of_mem hi
      have hrunning := h.running_granted hfirst ht hat
      have hbefore := work_at (q := q) hrunning.last ht
      have hbacklog : backlog { q with lock := rest } = backlog q := by
        simp [backlog, waitingCalls, hfirst, List.filterMap_cons]
      simp only [step, hfirst, ht]
      cases t with
      | acquiring =>
          have htaken := work_take_le address hrunning
          simp only [Flush.weight] at hbefore ⊢
          omega
      | stopping =>
          have hstranded := work_strand_le address hrunning
          simp only [Flush.weight] at hbefore ⊢
          omega
      | writing c answered => exact absurd hat (by simp [Flush.atLock])
      | ended => exact absurd hat (by simp [Flush.atLock])

theorem work_finish_lt (h : Shape q) {answered : Bool}
    (ht : q.tasks[i]? = some (.writing c answered)) (result : Except WriteError Unit)
    (raises : Bool) :
    work (q.step address (.finish i result raises)) < work q := by
  have hrunning := h.running_writing ht
  have hbefore := work_at hrunning.last ht
  cases answered with
  | true =>
      have hlooped := work_loop_le address hrunning
      simp only [step, ht, Flush.weight] at hbefore ⊢
      omega
  | false =>
      simp only [step, ht, Flush.weight] at hbefore ⊢
      cases result with
      | ok _ =>
          have hstopped := work_stop_le address (hrunning.done c raises)
          have hlooped := work_loop_le address (hrunning.done c raises)
          rw [backlog_done] at hstopped hlooped
          simp only
          split <;> omega
      | error e =>
          have hstopped := work_stop_le address hrunning
          have hlooped := work_loop_le address (hrunning.settle (.error e) c.waiter)
          rw [backlog_settle] at hlooped
          simp only
          split <;> omega

theorem work_acknowledge_lt (h : Shape q) (ht : q.tasks[i]? = some (.writing c false))
    (raises : Bool) : work (q.step address (.acknowledge i raises)) < work q := by
  have hlast := (h.running_writing ht).last
  simp only [step, ht]
  rw [work_at hlast ht, work, current_acknowledged hlast, backlog_done]
  simp [backlog, waitingCalls, Flush.weight]

theorem work_cancel_lt (h : Shape q) (ht : q.tasks[i]? = some t) (halive : t ≠ .ended) :
    work (q.step address (.cancel i)) < work q := by
  have hbefore := work_at (h.last_of_alive ht halive) ht
  cases t with
  | acquiring =>
      have hnoted : Running { q with
          lock := q.lock.erase (.flush i), cancelled := q.cancelled ++ [i] } i :=
        (h.running_cancelled ht rfl).congr rfl rfl rfl rfl rfl
      have hstopped := work_stop_le address hnoted
      have hbacklog := h.backlog_erase ht rfl
      simp only [step, ht, Flush.weight, backlog, waitingCalls] at hbefore hstopped hbacklog ⊢
      omega
  | writing c answered =>
      have hnoted : Running { q with cancelled := q.cancelled ++ [i] } i :=
        (h.running_writing ht).congr rfl rfl rfl rfl rfl
      have hstopped := work_stop_le address hnoted
      have hweight : 3 ≤ (Flush.writing c answered).weight := by
        cases answered <;> simp [Flush.weight]
      simp only [step, ht, backlog, waitingCalls] at hbefore hstopped ⊢
      omega
  | stopping =>
      have hbacklog := h.backlog_erase ht rfl
      have hlast := h.last_of_alive ht (by simp)
      simp only [step, ht]
      rw [work, current_set (q := q) hlast rfl]
      simp only [Flush.weight, backlog, waitingCalls] at hbefore hbacklog ⊢
      omega
  | ended => exact absurd rfl halive

/-- Every step but a call does nothing or brings the queue closer to rest. -/
theorem step_work (h : Shape q) {a : QueueAct} (ha : a.isCall = false) :
    q.step address a = q ∨ work (q.step address a) < work q := by
  match a with
  | .call .. => exact absurd ha (by simp [QueueAct.isCall])
  | .grant =>
      by_cases hlock : q.lock = []
      · left
        simp [step, hlock]
      · exact Or.inr (work_grant_lt address h hlock)
  | .acknowledge i raises =>
      by_cases hwriting : ∃ c, q.tasks[i]? = some (.writing c false)
      · obtain ⟨c, ht⟩ := hwriting
        exact Or.inr (work_acknowledge_lt address h ht raises)
      · left
        simp only [step]
        split
        · rename_i c ht
          exact absurd ⟨c, ht⟩ hwriting
        · rfl
  | .finish i result raises =>
      by_cases hwriting : ∃ c answered, q.tasks[i]? = some (.writing c answered)
      · obtain ⟨c, answered, ht⟩ := hwriting
        exact Or.inr (work_finish_lt address h ht result raises)
      · left
        simp only [step]
        split
        · rename_i c ht
          exact absurd ⟨c, true, ht⟩ hwriting
        · rename_i c ht
          exact absurd ⟨c, false, ht⟩ hwriting
        · rename_i c e ht
          exact absurd ⟨c, false, ht⟩ hwriting
        · rfl
  | .cancel i =>
      by_cases halive : ∃ t, q.tasks[i]? = some t ∧ t ≠ .ended
      · obtain ⟨t, ht, hne⟩ := halive
        exact Or.inr (work_cancel_lt address h ht hne)
      · left
        simp only [step]
        split
        · rename_i ht
          exact absurd ⟨_, ht, by simp⟩ halive
        · rename_i ht
          exact absurd ⟨_, ht, by simp⟩ halive
        · rename_i ht
          exact absurd ⟨_, ht, by simp⟩ halive
        · rfl

/-! ## Rest -/

/-- Without further calls, only so many steps can do anything. -/
theorem length_le_work (h : Shape q) {acts : List QueueAct} (hcalls : ∀ a ∈ acts, a.isCall = false)
    (heffective : Runs.Along (step address) (fun q a => q.step address a ≠ q) q acts) :
    acts.length ≤ work q := by
  induction acts generalizing q with
  | nil => exact Nat.zero_le _
  | cons a rest ih =>
      have hless : work (q.step address a) < work q :=
        (step_work address h (hcalls a (by simp))).resolve_left heffective.1
      have hrest := ih (step_shape h a) (fun b hb => hcalls b (List.mem_cons_of_mem _ hb))
        heffective.2
      rw [List.length_cons]
      omega

/-- Short of rest, the lock can be granted or `_write_now` can return. -/
theorem exists_step_of_not_resting (h : Shape q) (hrest : ¬ Resting q) :
    ∃ a, (a = .grant ∨ ∃ i, a = .finish i (.ok ()) false) ∧ q.step address a ≠ q := by
  have hne : ∀ q' : Queue, work q' < work q → q' ≠ q := by
    rintro q' hless rfl
    exact absurd hless (lt_irrefl _)
  by_cases hlock : q.lock = []
  · -- a task that is alive over an unclaimed lock is in `_write_now`
    have hcurrent : q.current ≠ .ended := fun hended => hrest ⟨hlock, hended⟩
    obtain ⟨i, hi⟩ := exists_task_of_current hcurrent
    have hwriting : ∃ c answered, q.current = .writing c answered := by
      have hflushes := h.flushes
      rw [waitingFlushes, hlock] at hflushes
      cases hat : q.current with
      | writing c answered => exact ⟨c, answered, rfl⟩
      | acquiring => exact absurd hflushes (by simp [hat, Flush.atLock])
      | stopping => exact absurd hflushes (by simp [hat, Flush.atLock])
      | ended => exact absurd hat hcurrent
    obtain ⟨c, answered, hwriting⟩ := hwriting
    rw [hwriting] at hi
    exact ⟨_, Or.inr ⟨i, rfl⟩, hne _ (work_finish_lt address h hi _ _)⟩
  · exact ⟨.grant, Or.inl rfl, hne _ (work_grant_lt address h hlock)⟩

/-! ## The calls of a run -/

@[simp] theorem strand_calls (q : Queue) (i : ℕ) : (q.strand address i).calls = q.calls := by
  unfold strand
  rw [settleAll_eq]

@[simp] theorem stop_calls (q : Queue) (i : ℕ) : (q.stop address i).calls = q.calls := by
  unfold stop
  split
  · exact strand_calls address q i
  · rfl

@[simp] theorem take_calls (q : Queue) (i : ℕ) : (q.take address i).calls = q.calls := by
  unfold take
  split
  · exact stop_calls address q i
  · rfl

@[simp] theorem loop_calls (q : Queue) (i : ℕ) : (q.loop address i).calls = q.calls := by
  unfold loop
  split
  · exact take_calls address q i
  · rfl

@[simp] theorem enter_calls (q : Queue) (c : Queued) : (q.enter c).calls = q.calls := by
  rw [enter_eq]
  unfold startFlush
  split <;> rfl

theorem calls_step_call (q : Queue) (entry : ℤ) (value : Bytes) (coalesce : Bool) :
    (q.step address (.call entry value coalesce)).calls =
      q.calls ++ [⟨entry, value, coalesce, q.calls.length⟩] := by
  simp only [step]
  split <;> simp

theorem calls_step (q : Queue) {a : QueueAct} (ha : a.isCall = false) :
    (q.step address a).calls = q.calls := by
  match a with
  | .call .. => exact absurd ha (by simp [QueueAct.isCall])
  | .grant =>
      simp only [step]
      split
      · rfl
      · simp
      · split <;> simp
  | .acknowledge i raises =>
      simp only [step]
      split <;> simp
  | .finish i result raises =>
      simp only [step]
      split
      · simp
      · split <;> simp
      · split <;> simp
      · rfl
  | .cancel i =>
      simp only [step]
      split <;> simp

/-- The calls of a run are those made in it, in their order. -/
theorem calls_run (q : Queue) (acts : List QueueAct) :
    (Runs.run (step address) q acts).calls.map Queued.asked =
      q.calls.map Queued.asked ++ acts.filterMap QueueAct.asked := by
  induction acts generalizing q with
  | nil => simp [Runs.run]
  | cons a rest ih =>
      rw [Runs.run_cons, ih]
      cases hcall : a.isCall with
      | true =>
          obtain ⟨entry, value, coalesce, rfl⟩ : ∃ entry value coalesce,
              a = .call entry value coalesce := by
            cases a <;> simp [QueueAct.isCall] at hcall ⊢
          rw [calls_step_call]
          simp [QueueAct.asked, Queued.asked]
      | false =>
          have hnone : a.asked = none := by
            cases a <;> first | rfl | simp [QueueAct.isCall] at hcall
          rw [calls_step address q hcall, List.filterMap_cons, hnone]

end Queue

end BTHomeWritable.Receiver
