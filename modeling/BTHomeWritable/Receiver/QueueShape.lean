import BTHomeWritable.Receiver.Queue

/-!
# The shape of the queue

Whatever happens, cancellations and raising listeners included: only the flush
task made last can be alive, it waits for the lock exactly when it stands at a
lock, it never finds the queue empty after it had to wait for it, and the calls
are those that have entered followed by those that wait to enter.

* `Core` holds in the middle of a step too, and `Shape` adds the flush tasks that
  stand at the lock.
* `Running` is a queue in the middle of a step of its flush task.  The lemmas on
  the sections (`enter_shape`, `take_shape`, `stop_shape`, `loop_shape`,
  `strand_shape`) lead from it back to `Shape`.
* `Shape.admit` and the `running` lemmas are the ways in: what the lock's next
  waiter or a task that is resumed finds.

`step_shape` puts them together; the three modules on the queue that follow build
on it.
-/

namespace BTHomeWritable.Receiver

open Overtaking (Mark entries pops)

def Waiting.call? : Waiting → Option Queued
  | .call c => some c
  | .flush _ => none

def Waiting.flush? : Waiting → Option ℕ
  | .call _ => none
  | .flush i => some i

def Flush.atLock : Flush → Bool
  | .acquiring | .stopping => true
  | _ => false

namespace Queue

@[simp] theorem call?_call (c : Queued) : (Waiting.call c).call? = some c := rfl
@[simp] theorem call?_flush (i : ℕ) : (Waiting.flush i).call? = none := rfl
@[simp] theorem flush?_call (c : Queued) : (Waiting.call c).flush? = none := rfl
@[simp] theorem flush?_flush (i : ℕ) : (Waiting.flush i).flush? = some i := rfl

/-- The calls that wait for the lock. -/
def waitingCalls (q : Queue) : List Queued := q.lock.filterMap Waiting.call?

/-- The flush tasks that wait for the lock. -/
def waitingFlushes (q : Queue) : List ℕ := q.lock.filterMap Waiting.flush?

/-- Where the last flush task stands. -/
def current (q : Queue) : Flush := q.tasks.getLast?.getD .ended

/-- What holds in the middle of a step, with `limbo` on its way into the queue. -/
structure Core (limbo : List Queued) (q : Queue) : Prop where
  ended : ∀ i t, q.tasks[i]? = some t → i + 1 < q.tasks.length → t = .ended
  calls : q.calls = entries q.log ++ limbo ++ q.waitingCalls
  numbered : q.calls.map Queued.waiter = List.range q.calls.length
  taken : (pops q.log ++ q.pending).Sublist (entries q.log)

structure Shape (q : Queue) : Prop extends Core [] q where
  flushes : q.waitingFlushes = if q.current.atLock then [q.tasks.length - 1] else []
  ready : q.current = .acquiring → q.pending ≠ [] ∨ ∃ c rest, q.lock = .call c :: rest

/-- Task `i` runs: it is the last one and no flush task waits. -/
structure Running (q : Queue) (i : ℕ) : Prop extends Core [] q where
  last : i + 1 = q.tasks.length
  free : q.waitingFlushes = []

variable {q : Queue} {i : ℕ} {t : Flush} {c : Queued} {limbo : List Queued} {address : String}

/-! ## The last task -/

theorem current_of_getElem? (hlast : i + 1 = q.tasks.length) (h : q.tasks[i]? = some t) :
    q.current = t := by
  unfold current
  rw [List.getLast?_eq_getElem?, ← hlast, Nat.add_sub_cancel, h]
  rfl

theorem current_set {q' : Queue} (hlast : i + 1 = q.tasks.length)
    (htasks : q'.tasks = q.tasks.set i t) : q'.current = t := by
  refine current_of_getElem? (i := i) (by simp [htasks, hlast]) ?_
  rw [htasks, List.getElem?_set_self (by omega)]

theorem flushDone_iff : q.flushDone = true ↔ q.current = .ended := by
  unfold flushDone current
  cases q.tasks.getLast? <;> simp

/-- A flush task is made exactly over one that has ended. -/
theorem startFlush_cases (q : Queue) :
    (q.current = .ended ∧ q.startFlush =
      { q with tasks := q.tasks ++ [.acquiring], lock := q.lock ++ [.flush q.tasks.length] }) ∨
    (q.current ≠ .ended ∧ q.startFlush = q) := by
  unfold startFlush
  by_cases hdone : q.flushDone = true
  · exact Or.inl ⟨flushDone_iff.mp hdone, if_pos hdone⟩
  · exact Or.inr ⟨fun hended => hdone (flushDone_iff.mpr hended), if_neg hdone⟩

theorem current_startFlush (q : Queue) :
    q.startFlush.current = if q.current = .ended then .acquiring else q.current := by
  rcases startFlush_cases q with ⟨hended, hstart⟩ | ⟨halive, hstart⟩
  · rw [hstart, if_pos hended]
    simp [current]
  · rw [hstart, if_neg halive]

theorem current_startFlush_ne_ended (q : Queue) : q.startFlush.current ≠ .ended := by
  rw [current_startFlush]
  split
  · simp
  · assumption

theorem exists_task_of_current (h : q.current ≠ .ended) :
    ∃ i : ℕ, q.tasks[i]? = some q.current := by
  unfold current at h ⊢
  rw [List.getLast?_eq_getElem?] at h ⊢
  refine ⟨q.tasks.length - 1, ?_⟩
  cases hlast : q.tasks[q.tasks.length - 1]? with
  | none => exact absurd (by rw [hlast]; rfl) h
  | some t => rfl

theorem Core.queued (h : Core limbo q) (hc : c ∈ q.pending) : c ∈ entries q.log :=
  h.taken.subset (List.mem_append_right _ hc)

/-- A task that is not done is the last one. -/
theorem Core.last_of_alive (h : Core limbo q) (ht : q.tasks[i]? = some t) (halive : t ≠ .ended) :
    i + 1 = q.tasks.length := by
  have hlt : i < q.tasks.length := (List.getElem?_eq_some_iff.mp ht).1
  by_contra hne
  exact halive (h.ended i t ht (by omega))

theorem Core.set_tasks (h : Core limbo q) (hlast : i + 1 = q.tasks.length) {q' : Queue}
    (htasks : q'.tasks = q.tasks.set i t) (hcalls : q'.calls = q.calls) (hlog : q'.log = q.log)
    (hpending : q'.pending.Sublist q.pending) (hwaiting : q'.waitingCalls = q.waitingCalls) :
    Core limbo q' where
  ended := by
    intro j u hj hlt
    rw [htasks, List.length_set] at hlt
    rw [htasks, List.getElem?_set_ne (by omega)] at hj
    exact h.ended j u hj hlt
  calls := by rw [hcalls, hlog, hwaiting]; exact h.calls
  numbered := by rw [hcalls]; exact h.numbered
  taken := by
    rw [hlog]
    exact (List.Sublist.append (List.Sublist.refl _) hpending).trans h.taken

theorem shape_empty : Shape empty where
  ended := by simp [empty]
  calls := rfl
  numbered := rfl
  taken := List.Sublist.refl _
  flushes := rfl
  ready := by simp [current, empty]

/-! ## The sections -/

/-- Why a newcomer displaces an item that is still pending. -/
def displaces (c item : Queued) : Bool := c.coalesce && replaced c item

theorem enter_eq (q : Queue) (c : Queued) : q.enter c =
    startFlush { q with
      settled := (q.settleAll (.ok ()) (q.pending.filter (displaces c))).settled
      pending := (q.pending.filter fun item => !displaces c item) ++ [c]
      log := q.log ++ [.entered c] } := by
  unfold enter
  cases hc : c.coalesce with
  | true =>
      have hdisplaces : displaces c = replaced c := by
        funext item
        simp [displaces, hc]
      rw [if_pos rfl, settleAll_eq]
      simp only [hdisplaces]
  | false =>
      have hdisplaces : displaces c = fun _ => false := by
        funext item
        simp [displaces, hc]
      rw [if_neg (by simp)]
      simp [hdisplaces, settleAll]

theorem Core.startFlush (h : Core [] q)
    (hflushes : q.waitingFlushes = if q.current.atLock then [q.tasks.length - 1] else [])
    (hpending : q.pending ≠ []) : Shape q.startFlush := by
  have hnew := current_startFlush q
  rcases startFlush_cases q with ⟨hcurrent, hstart⟩ | ⟨-, hstart⟩
  · rw [if_pos hcurrent, hstart] at hnew
    rw [hstart]
    rw [hcurrent, if_neg (by simp [Flush.atLock])] at hflushes
    refine
      { ended := ?_
        calls := ?_
        numbered := h.numbered
        taken := h.taken
        flushes := ?_
        ready := fun _ => Or.inl hpending }
    · intro i t ht hlt
      simp only [List.length_append, List.length_singleton] at hlt
      rw [List.getElem?_append_left (by omega)] at ht
      by_cases hlast : i + 1 = q.tasks.length
      · exact (current_of_getElem? hlast ht).symm.trans hcurrent
      · exact h.ended i t ht (by omega)
    · rw [h.calls]
      simp [waitingCalls]
    · rw [hnew]
      simpa [waitingFlushes, Flush.atLock] using hflushes
  · rw [hstart]
    exact { toCore := h, flushes := hflushes, ready := fun _ => Or.inl hpending }

theorem enter_shape (h : Core [c] q)
    (hflushes : q.waitingFlushes = if q.current.atLock then [q.tasks.length - 1] else []) :
    Shape (q.enter c) := by
  rw [enter_eq]
  refine Core.startFlush ?_ hflushes (by simp)
  refine
    { ended := h.ended
      calls := ?_
      numbered := h.numbered
      taken := ?_ }
  · rw [Overtaking.entries_append_entered, List.append_nil]
    exact h.calls
  · rw [Overtaking.entries_append_entered, Overtaking.pops_append_entered, ← List.append_assoc]
    have hkept : (pops q.log ++ q.pending.filter fun item => !displaces c item).Sublist
        (pops q.log ++ q.pending) := List.Sublist.append (List.Sublist.refl _) List.filter_sublist
    exact List.Sublist.append (hkept.trans h.taken) (List.Sublist.refl _)

/-- The running task turns to something else than a lock. -/
theorem Running.shape (h : Running q i) (hcurrent : q.current = t) (hat : t.atLock = false) :
    Shape q where
  toCore := h.toCore
  flushes := by
    rw [hcurrent, hat]
    exact h.free
  ready := by
    rw [hcurrent]
    rintro rfl
    exact absurd hat (by simp [Flush.atLock])

theorem Running.set_tasks (h : Running q i) {q' : Queue} (htasks : q'.tasks = q.tasks.set i t)
    (hcalls : q'.calls = q.calls) (hlog : q'.log = q.log)
    (hpending : q'.pending.Sublist q.pending) (hlock : q'.lock = q.lock) : Running q' i where
  toCore := h.toCore.set_tasks h.last htasks hcalls hlog hpending (by simp [waitingCalls, hlock])
  last := by simpa [htasks] using h.last
  free := by
    rw [waitingFlushes, hlock]
    exact h.free

theorem strand_shape (h : Running q i) : Shape (q.strand address i) := by
  unfold strand
  rw [settleAll_eq]
  refine Running.shape (i := i) (t := .ended) ?_ (current_set h.last rfl) rfl
  exact h.set_tasks rfl rfl rfl (List.nil_sublist _) rfl

/-- The task goes to wait for the lock. -/
theorem wait_shape (h : Running q i) (ht : t.atLock = true)
    (hready : t = .acquiring → q.lock ≠ []) :
    Shape { q with tasks := q.tasks.set i t, lock := q.lock ++ [.flush i] } := by
  refine
    { toCore := h.toCore.set_tasks h.last rfl rfl rfl (List.Sublist.refl _)
        (by simp [waitingCalls])
      flushes := ?_
      ready := ?_ }
  · rw [current_set h.last rfl, if_pos ht]
    have hfree := h.free
    have hlast := h.last
    simp only [waitingFlushes] at hfree
    simp [waitingFlushes, hfree, ← hlast]
  · rw [current_set h.last rfl]
    intro hacquiring
    obtain ⟨first, rest, hlock⟩ := List.exists_cons_of_ne_nil (hready hacquiring)
    cases first with
    | call c => exact Or.inr ⟨c, rest ++ [.flush i], by simp [hlock]⟩
    | flush j =>
        have hfree := h.free
        rw [waitingFlushes, hlock] at hfree
        exact absurd hfree (by simp)

theorem stop_shape (h : Running q i) : Shape (q.stop address i) := by
  unfold stop
  by_cases hlock : q.lock = []
  · rw [if_pos hlock]
    exact strand_shape h
  · rw [if_neg hlock]
    exact wait_shape h rfl (fun hnot => absurd hnot (by simp))

theorem take_shape (h : Running q i) : Shape (q.take address i) := by
  unfold take
  cases hpending : q.pending with
  | nil => exact stop_shape h
  | cons c rest =>
      have hset : Running { q with tasks := q.tasks.set i (.writing c false) } i :=
        h.set_tasks rfl rfl rfl (List.Sublist.refl _) rfl
      have hrunning : Running { q with
          pending := rest
          tasks := q.tasks.set i (.writing c false)
          log := q.log ++ [.popped c] } i :=
        { hset with
          calls := by simpa [waitingCalls] using h.calls
          taken := by
            have htaken := h.taken
            rw [hpending] at htaken
            rw [Overtaking.entries_append_popped, Overtaking.pops_append_popped,
              List.append_assoc]
            exact htaken }
      exact hrunning.shape (current_set h.last rfl) rfl

theorem loop_shape (h : Running q i) : Shape (q.loop address i) := by
  unfold loop
  by_cases hlock : q.lock = []
  · rw [if_pos hlock]
    exact take_shape h
  · rw [if_neg hlock]
    exact wait_shape h rfl (fun _ => hlock)

/-! ## Who runs -/

theorem Running.congr (h : Running q i) {q' : Queue} (htasks : q'.tasks = q.tasks)
    (hcalls : q'.calls = q.calls) (hlog : q'.log = q.log) (hpending : q'.pending = q.pending)
    (hlock : q'.lock = q.lock) : Running q' i := by
  refine
    { ended := by rw [htasks]; exact h.ended
      calls := ?_
      numbered := by rw [hcalls]; exact h.numbered
      taken := by rw [hpending, hlog]; exact h.taken
      last := by rw [htasks]; exact h.last
      free := ?_ }
  · rw [hcalls, hlog, h.calls, waitingCalls, waitingCalls, hlock]
  · rw [waitingFlushes, hlock]
    exact h.free

theorem Running.settle (h : Running q i) (r : Except WriteError Unit) (w : ℕ) :
    Running (q.settle r w) i :=
  h.congr (by simp) (by simp) (by simp) (by simp) (by simp)

theorem Running.done (h : Running q i) (c : Queued) (raises : Bool) :
    Running (q.done c raises) i :=
  h.congr (by simp) (by simp) (by simp) (by simp) (by simp)

/-- After the acknowledgement the task is still in `_write_now`. -/
theorem current_acknowledged (hlast : i + 1 = q.tasks.length) (c : Queued) (raises : Bool) :
    Queue.current (Queue.done { q with tasks := q.tasks.set i (.writing c true) } c raises) =
      .writing c true :=
  current_set hlast (by simp)

/-- A task in `_write_now` runs. -/
theorem Shape.running_writing (h : Shape q) {answered : Bool}
    (ht : q.tasks[i]? = some (.writing c answered)) : Running q i where
  toCore := h.toCore
  last := h.last_of_alive ht (by simp)
  free := by
    rw [h.flushes, current_of_getElem? (h.last_of_alive ht (by simp)) ht]
    rfl

/-- At a lock, the task is the one flush task that waits for it. -/
theorem Shape.waitingFlushes_atLock (h : Shape q) (ht : q.tasks[i]? = some t)
    (hlock : t.atLock = true) : q.waitingFlushes = [i] ∧ i + 1 = q.tasks.length := by
  have hlast : i + 1 = q.tasks.length := by
    refine h.last_of_alive ht ?_
    rintro rfl
    exact absurd hlock (by simp [Flush.atLock])
  refine ⟨?_, hlast⟩
  rw [h.flushes, current_of_getElem? hlast ht, if_pos hlock, ← hlast]
  rfl

theorem Shape.atLock_of_mem (h : Shape q) (hi : i ∈ q.waitingFlushes) :
    ∃ t, q.tasks[i]? = some t ∧ t.atLock = true := by
  rw [h.flushes] at hi
  split at hi
  · rename_i hat
    have halive : q.current ≠ .ended := by
      intro hended
      exact absurd hat (by simp [hended, Flush.atLock])
    obtain ⟨j, hj⟩ := exists_task_of_current halive
    have hlast := h.last_of_alive hj halive
    have hij : i = j := by
      have := List.mem_singleton.mp hi
      omega
    exact ⟨q.current, hij ▸ hj, hat⟩
  · exact absurd hi (by simp)

/-- Its turn at the lock: it runs. -/
theorem Shape.running_granted (h : Shape q) {rest : List Waiting}
    (hlock : q.lock = .flush i :: rest) (ht : q.tasks[i]? = some t) (hat : t.atLock = true) :
    Running { q with lock := rest } i := by
  obtain ⟨hflushes, hlast⟩ := h.waitingFlushes_atLock ht hat
  refine
    { ended := h.ended
      calls := ?_
      numbered := h.numbered
      taken := h.taken
      last := hlast
      free := ?_ }
  · have hcalls := h.calls
    rw [waitingCalls, hlock] at hcalls
    simpa [waitingCalls, List.filterMap_cons] using hcalls
  · rw [waitingFlushes, hlock] at hflushes
    simpa [waitingFlushes, List.filterMap_cons] using hflushes

/-- The loop had to wait for the lock, so somebody who waited before it has filled the queue. -/
theorem Shape.pending_of_granted (h : Shape q) {rest : List Waiting}
    (hlock : q.lock = .flush i :: rest) (ht : q.tasks[i]? = some .acquiring) : q.pending ≠ [] := by
  have hlast := (h.running_granted hlock ht rfl).last
  rcases h.ready (current_of_getElem? hlast ht) with hfull | ⟨d, tail, hhead⟩
  · exact hfull
  · exact absurd (hlock.symm.trans hhead) (by simp)

/-- Cancelled at the lock: it runs, on to wherever the exception takes it. -/
theorem Shape.running_cancelled (h : Shape q) (ht : q.tasks[i]? = some t) (hat : t.atLock = true) :
    Running { q with lock := q.lock.erase (.flush i) } i := by
  obtain ⟨hflushes, hlast⟩ := h.waitingFlushes_atLock ht hat
  have hmem : Waiting.flush i ∈ q.lock := by
    have hi : i ∈ q.waitingFlushes := by simp [hflushes]
    obtain ⟨w, hw, hwi⟩ := List.mem_filterMap.mp hi
    cases w with
    | call c => exact absurd hwi (by simp)
    | flush j =>
        obtain rfl : j = i := by simpa using hwi
        exact hw
  obtain ⟨before, after, -, hlock, herase⟩ := List.exists_erase_eq hmem
  refine
    { ended := h.ended
      calls := ?_
      numbered := h.numbered
      taken := h.taken
      last := hlast
      free := ?_ }
  · have hcalls := h.calls
    rw [waitingCalls, hlock] at hcalls
    simpa [waitingCalls, herase, List.filterMap_cons] using hcalls
  · -- it was the only flush task at the lock, so none is left on either side of it
    rw [waitingFlushes, hlock] at hflushes
    simp only [List.filterMap_append, List.filterMap_cons, flush?_flush] at hflushes
    have hlength := congrArg List.length hflushes
    simp only [List.length_append, List.length_cons, List.length_nil] at hlength
    rw [waitingFlushes, herase, List.filterMap_append]
    exact List.append_eq_nil_iff.mpr
      ⟨List.length_eq_zero_iff.mp (by omega), List.length_eq_zero_iff.mp (by omega)⟩

/-- Leaving the lock takes no call along. -/
theorem Shape.waitingCalls_erase (h : Shape q) (ht : q.tasks[i]? = some t)
    (hat : t.atLock = true) :
    waitingCalls { q with lock := q.lock.erase (.flush i) } = q.waitingCalls :=
  List.append_cancel_left ((h.running_cancelled ht hat).calls.symm.trans h.calls)

/-! ## Steps -/

/-- A call arrives: it is the next in number. -/
theorem Shape.arrive (h : Shape q) (hlock : q.lock = []) (hc : c.waiter = q.calls.length) :
    Core [c] { q with calls := q.calls ++ [c] } where
  ended := h.ended
  calls := by
    have hcalls := h.calls
    simp only [waitingCalls, hlock, List.filterMap_nil, List.append_nil] at hcalls
    simp [waitingCalls, hlock, ← hcalls]
  numbered := by simp [h.numbered, hc, List.range_succ]
  taken := h.taken

/-- A call that waited enters. -/
theorem Shape.admit (h : Shape q) {rest : List Waiting} (hlock : q.lock = .call c :: rest) :
    Core [c] { q with lock := rest } ∧ Queue.waitingFlushes { q with lock := rest } =
      if q.current.atLock then [q.tasks.length - 1] else [] := by
  refine ⟨⟨h.ended, ?_, h.numbered, h.taken⟩, ?_⟩
  · have hcalls := h.calls
    rw [waitingCalls, hlock] at hcalls
    simpa [waitingCalls, List.filterMap_cons] using hcalls
  · have hflushes := h.flushes
    rw [waitingFlushes, hlock] at hflushes
    exact hflushes

/-- A call waits behind those that wait. -/
theorem Shape.arrive_waiting (h : Shape q) (hc : c.waiter = q.calls.length) :
    Shape { q with calls := q.calls ++ [c], lock := q.lock ++ [.call c] } := by
  refine
    { ended := h.ended
      calls := by simp [waitingCalls, h.calls]
      numbered := by simp [h.numbered, hc, List.range_succ]
      taken := h.taken
      flushes := ?_
      ready := fun hacquiring => (h.ready hacquiring).imp_right ?_ }
  · have hflushes := h.flushes
    rw [waitingFlushes] at hflushes ⊢
    rw [List.filterMap_append, hflushes]
    exact List.append_nil _
  · rintro ⟨d, rest, hhead⟩
    exact ⟨d, rest ++ [.call c], by simp [hhead]⟩

theorem step_shape (h : Shape q) (a : QueueAct) : Shape (q.step address a) := by
  -- each step is a section entered in one of the ways above
  match a with
  | .call entry value coalesce =>
      simp only [step]
      by_cases hlock : q.lock = []
      · rw [if_pos hlock]
        exact enter_shape (h.arrive hlock rfl) h.flushes
      · rw [if_neg hlock]
        exact h.arrive_waiting rfl
  | .grant =>
      simp only [step]
      split
      · exact h
      · rename_i c rest hlock
        obtain ⟨hcore, hflushes⟩ := h.admit hlock
        exact enter_shape hcore hflushes
      · rename_i i rest hlock
        split
        · rename_i ht
          exact take_shape (h.running_granted hlock ht rfl)
        · rename_i ht
          exact strand_shape (h.running_granted hlock ht rfl)
        · exact h
  | .acknowledge i raises =>
      simp only [step]
      split
      · rename_i c ht
        have hrunning := h.running_writing ht
        have hset : Running { q with tasks := q.tasks.set i (.writing c true) } i :=
          hrunning.set_tasks rfl rfl rfl (List.Sublist.refl _) rfl
        exact (hset.done c raises).shape (current_acknowledged hrunning.last c raises) rfl
      · exact h
  | .finish i result raises =>
      simp only [step]
      split
      · rename_i ht
        exact loop_shape (h.running_writing ht)
      · rename_i ht
        split
        · exact stop_shape ((h.running_writing ht).done _ _)
        · exact loop_shape ((h.running_writing ht).done _ _)
      · rename_i ht
        split
        · exact stop_shape (h.running_writing ht)
        · exact loop_shape ((h.running_writing ht).settle _ _)
      · exact h
  | .cancel i =>
      simp only [step]
      split
      · rename_i ht
        exact stop_shape ((h.running_cancelled ht rfl).congr rfl rfl rfl rfl rfl)
      · rename_i ht
        exact stop_shape ((h.running_writing ht).congr rfl rfl rfl rfl rfl)
      · rename_i ht
        have hrunning := h.running_cancelled ht rfl
        have hset : Running { q with
            lock := q.lock.erase (.flush i)
            cancelled := q.cancelled ++ [i]
            tasks := q.tasks.set i .ended } i :=
          hrunning.set_tasks rfl rfl rfl (List.Sublist.refl _) rfl
        exact hset.shape (current_set (q := q) hrunning.last rfl) rfl
      · exact h

end Queue

end BTHomeWritable.Receiver
