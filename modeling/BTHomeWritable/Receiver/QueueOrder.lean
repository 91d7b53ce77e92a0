import BTHomeWritable.Receiver.QueueRest
import Mathlib.Data.List.Nodup

/-!
# What the queue hands to `_write_now`

As long as nobody is cancelled and no listener raises at the loop itself, the
commands taken from the queue and those still in it are the arrivals that were
not overtaken, in the order they came.  The proof carries three facts beside
the shape: the equation (`Ordered`), that a flush task is at work while anything is
queued, and that no flush task is on its way out.

`overtakes` is the relation between two arrivals, and `survivors` are those of the
log that nobody overtakes; `Ordered.enter` and `Ordered.take` are the two moves of
the equation.  `OrderInv.step` is the step, under `QueueAct.Calm`.

`DrainsInOrder` is the law of the queue, and `queue_drains_in_order` says it of
every run of such steps.  Its arrivals are the calls of the run, by `calls_run`.
-/

namespace BTHomeWritable.Receiver

open Overtaking (Mark entries pops overtaken survivors)

/-- `d` came later, is for the same entry, and both are coalescable. -/
def overtakes (d c : Queued) : Bool := decide (c.waiter < d.waiter) && Queue.displaces d c

/-- A coalescable command for `entry`. -/
def coalescableFor (entry : ℤ) (c : Queued) : Bool := c.coalesce && decide (c.entry = entry)

/-- Neither a cancellation nor a listener that raises outside `_write_now`. -/
def QueueAct.Calm : QueueAct → Prop
  | .cancel _ => False
  | .finish _ _ raises => raises = false
  | _ => True

theorem coalescableFor_of_overtakes {d c : Queued} {entry : ℤ} (h : overtakes d c = true)
    (hc : coalescableFor entry c = true) :
    coalescableFor entry d = true ∧ c.waiter < d.waiter := by
  simp only [overtakes, Queue.displaces, Queue.replaced, Bool.and_eq_true, decide_eq_true_eq] at h
  simp only [coalescableFor, Bool.and_eq_true, decide_eq_true_eq] at hc ⊢
  exact ⟨⟨h.2.1, h.2.2.1 ▸ hc.2⟩, h.1⟩

namespace Queue

variable {q : Queue} {i : ℕ} {t : Flush} {c : Queued} {limbo : List Queued} {address : String}

/-! ## Numbers -/

/-- Commands enter in the order of their numbers. -/
theorem Core.ascending (h : Core limbo q) :
    (entries q.log ++ limbo ++ q.waitingCalls).Pairwise fun a b => a.waiter < b.waiter := by
  rw [← h.calls, ← List.pairwise_map, h.numbered]
  exact List.pairwise_lt_range

theorem Core.entries_ascending (h : Core limbo q) :
    (entries q.log).Pairwise fun a b => a.waiter < b.waiter :=
  (List.pairwise_append.mp (List.pairwise_append.mp h.ascending).1).1

theorem Core.lt_of_mem_entries (h : Core [c] q) {item : Queued} (hitem : item ∈ entries q.log) :
    item.waiter < c.waiter :=
  (List.pairwise_append.mp (List.pairwise_append.mp h.ascending).1).2.2 item hitem c (by simp)

theorem nodup_of_ascending {items : List Queued}
    (h : items.Pairwise fun a b => a.waiter < b.waiter) : items.Nodup :=
  h.imp fun hab heq => absurd hab (by rw [heq]; exact lt_irrefl _)

/-! ## The invariant -/

/-- The commands attempted and those pending are the arrivals that were not overtaken. -/
def Ordered (q : Queue) : Prop := survivors overtakes q.log = pops q.log ++ q.pending

structure OrderInv (q : Queue) : Prop extends Shape q where
  ordered : Ordered q
  busy : q.pending ≠ [] → q.current ≠ .ended
  going : q.current ≠ .stopping

theorem orderInv_empty : OrderInv empty where
  toShape := shape_empty
  ordered := rfl
  busy := fun h => absurd rfl h
  going := by simp [current, empty]

theorem current_startFlush_ne_stopping (h : q.current ≠ .stopping) :
    q.startFlush.current ≠ .stopping := by
  rw [current_startFlush]
  split
  · simp
  · exact h

/-- The newcomer overtakes what its section drops, and nothing else. -/
theorem Ordered.enter (h : Ordered q) (hcore : Core [c] q) : Ordered (q.enter c) := by
  have hsame : ∀ item ∈ q.pending, overtakes c item = displaces c item := by
    intro item hitem
    simp [overtakes, hcore.lt_of_mem_entries (hcore.queued hitem)]
  -- nothing enters twice, so nothing is both popped and pending
  have hpending : ∀ item ∈ q.pending, item ∉ pops q.log := by
    have hnodup : (pops q.log ++ q.pending).Nodup := by
      rw [← h]
      exact (nodup_of_ascending hcore.entries_ascending).filter _
    intro item hitem hpopped
    exact (List.nodup_append.mp hnodup).2.2 item hpopped item hitem rfl
  -- everything that entered has a smaller number than the newcomer
  have hnew : overtaken overtakes c q.log = false := by
    rw [Bool.eq_false_iff]
    intro hover
    obtain ⟨d, hd, hdc⟩ := Overtaking.exists_overtaker hover
    have hlt := hcore.lt_of_mem_entries hd
    simp only [overtakes, Bool.and_eq_true, decide_eq_true_eq] at hdc
    omega
  have hself : overtakes c c = false := by simp [overtakes]
  have hnext := Overtaking.survivors_append_entered h hpending hnew hself
  have hkept : q.pending.filter (fun item => !overtakes c item) =
      q.pending.filter fun item => !displaces c item :=
    List.filter_congr fun item hitem => by rw [hsame item hitem]
  have hstart : ∀ q : Queue, Ordered q → Ordered q.startFlush := by
    intro q hq
    rcases startFlush_cases q with ⟨-, hstart⟩ | ⟨-, hstart⟩ <;> rw [hstart] <;> exact hq
  rw [enter_eq]
  refine hstart _ ?_
  unfold Ordered
  rw [hnext, hkept, Overtaking.pops_append_entered]

theorem Ordered.take (h : Ordered q) {rest : List Queued} (hpending : q.pending = c :: rest) :
    survivors overtakes (q.log ++ [.popped c]) = pops (q.log ++ [.popped c]) ++ rest := by
  rw [Overtaking.survivors_append_popped, Overtaking.pops_append_popped, h, hpending]
  simp

/-! ## One step -/

theorem OrderInv.enter (h : Ordered q) (hgoing : q.current ≠ .stopping) (hcore : Core [c] q)
    (hflushes : q.waitingFlushes = if q.current.atLock then [q.tasks.length - 1] else []) :
    OrderInv (q.enter c) where
  toShape := enter_shape hcore hflushes
  ordered := h.enter hcore
  busy := fun _ => by
    rw [enter_eq]
    exact current_startFlush_ne_ended _
  going := by
    rw [enter_eq]
    exact current_startFlush_ne_stopping hgoing

/-- The loop goes on to the next command, or ends over an empty queue that nobody waits for. -/
theorem OrderInv.take (h : Ordered q) (hrunning : Running q i)
    (hempty : q.pending = [] → q.lock = []) : OrderInv (q.take address i) := by
  have hshape : Shape (q.take address i) := take_shape hrunning
  cases hpending : q.pending with
  | nil =>
      have htake : q.take address i = { q with pending := [], tasks := q.tasks.set i .ended } := by
        simp only [Queue.take, hpending, stop, if_pos (hempty hpending), strand, settleAll,
          List.foldl_nil]
      rw [htake] at hshape ⊢
      refine { toShape := hshape, ordered := ?_, busy := fun hne => absurd rfl hne, going := ?_ }
      · rw [Ordered, hpending] at h
        exact h
      · rw [current_set hrunning.last rfl]
        simp
  | cons c rest =>
      have htake : q.take address i =
          { q with
            pending := rest
            tasks := q.tasks.set i (.writing c false)
            log := q.log ++ [.popped c] } := by
        simp only [Queue.take, hpending]
      rw [htake] at hshape ⊢
      refine { toShape := hshape, ordered := h.take hpending, busy := fun _ => ?_, going := ?_ }
      · rw [current_set hrunning.last rfl]
        simp
      · rw [current_set hrunning.last rfl]
        simp

theorem OrderInv.loop (h : Ordered q) (hrunning : Running q i) : OrderInv (q.loop address i) := by
  have hshape : Shape (q.loop address i) := loop_shape hrunning
  by_cases hlock : q.lock = []
  · have hloop : q.loop address i = q.take address i := if_pos hlock
    rw [hloop]
    exact OrderInv.take h hrunning fun _ => hlock
  · have hloop : q.loop address i =
        { q with tasks := q.tasks.set i .acquiring, lock := q.lock ++ [.flush i] } := if_neg hlock
    rw [hloop] at hshape ⊢
    refine { toShape := hshape, ordered := h, busy := fun _ => ?_, going := ?_ }
    · rw [current_set hrunning.last rfl]
      simp
    · rw [current_set hrunning.last rfl]
      simp

/-- Futures do not come into it. -/
theorem Ordered.settle (h : Ordered q) (r : Except WriteError Unit) (w : ℕ) :
    Ordered (q.settle r w) := by
  simpa [Ordered] using h

theorem Ordered.done (h : Ordered q) (c : Queued) (raises : Bool) : Ordered (q.done c raises) := by
  simpa [Ordered] using h

theorem OrderInv.step (h : OrderInv q) {a : QueueAct} (ha : a.Calm) :
    OrderInv (q.step address a) := by
  have hshape : Shape (q.step address a) := step_shape h.toShape a
  match a with
  | .call entry value coalesce =>
      simp only [Queue.step] at hshape ⊢
      by_cases hlock : q.lock = []
      · rw [if_pos hlock]
        exact OrderInv.enter h.ordered h.going (h.arrive hlock rfl) h.flushes
      · rw [if_neg hlock] at hshape ⊢
        exact { toShape := hshape, ordered := h.ordered, busy := h.busy, going := h.going }
  | .grant =>
      simp only [Queue.step]
      split
      · exact h
      · rename_i c rest hlock
        obtain ⟨hcore, hflushes⟩ := h.admit hlock
        exact OrderInv.enter h.ordered h.going hcore hflushes
      · rename_i i rest hlock
        split
        · rename_i ht
          have hfull := h.pending_of_granted hlock ht
          exact OrderInv.take h.ordered (h.running_granted hlock ht rfl)
            fun hempty => absurd hempty hfull
        · rename_i ht
          have hrunning := h.running_granted hlock ht rfl
          -- a flush task that was stopped would be on its way out
          exact absurd (current_of_getElem? (q := q) hrunning.last ht) h.going
        · exact h
  | .acknowledge i raises =>
      simp only [Queue.step] at hshape ⊢
      split at hshape
      · rename_i c ht
        have hcurrent := current_acknowledged (h.running_writing ht).last c raises
        have hordered : Ordered { q with tasks := q.tasks.set i (.writing c true) } := h.ordered
        refine
          { toShape := hshape
            ordered := hordered.done c raises
            busy := fun _ => by rw [hcurrent]; simp
            going := by rw [hcurrent]; simp }
      · exact h
  | .finish i result raises =>
      obtain rfl : raises = false := ha
      simp only [Queue.step]
      split
      · rename_i ht
        exact OrderInv.loop h.ordered (h.running_writing ht)
      · rename_i ht
        exact OrderInv.loop (h.ordered.done _ _) ((h.running_writing ht).done _ _)
      · rename_i ht
        exact OrderInv.loop (h.ordered.settle _ _) ((h.running_writing ht).settle _ _)
      · exact h
  | .cancel i => exact absurd ha id

theorem OrderInv.run (h : OrderInv q) {acts : List QueueAct} (hcalm : ∀ a ∈ acts, a.Calm) :
    OrderInv (Runs.run (Queue.step address) q acts) := by
  have hstep : ∀ (q : Queue) (a : QueueAct), OrderInv q → a.Calm → OrderInv (q.step address a) :=
    fun _ _ hq ha => hq.step ha
  exact Runs.run_invariant hstep h (Runs.Along.of_forall hcalm)

/-! ## The law of the queue -/

/-- A calm run gets to its end: only so many steps are left without further calls, and short of
rest there is one to take. -/
structure ComesToRest (address : String) (q : Queue) : Prop where
  bounded : ∀ acts : List QueueAct, (∀ a ∈ acts, a.isCall = false) →
    Runs.Along (step address) (fun q a => q.step address a ≠ q) q acts → acts.length ≤ q.work
  goes_on : ¬ q.Resting → ∃ a, (a = .grant ∨ ∃ i, a = .finish i (.ok ()) false) ∧
    q.step address a ≠ q

theorem Shape.comesToRest (h : Shape q) : ComesToRest address q where
  bounded _ := length_le_work address h
  goes_on := exists_step_of_not_resting address h

structure DrainsInOrder (address : String) (q : Queue) : Prop where
  /-- What entered is what was called, in that order, but for those that still wait to enter. -/
  arrivals : q.calls = entries q.log ++ q.waitingCalls
  attempted : pops q.log ++ q.pending =
    (entries q.log).filter fun c => !overtaken overtakes c q.log
  once : (pops q.log).Nodup
  in_order : (pops q.log).Pairwise fun a b => a.waiter < b.waiter
  events : ∀ c ∈ q.calls, c.coalesce = false →
    (pops q.log ++ q.pending ++ q.waitingCalls).count c = 1
  last_value : ∀ entry,
    ((pops q.log ++ q.pending ++ q.waitingCalls).filter (coalescableFor entry)).getLast? =
      (q.calls.filter (coalescableFor entry)).getLast?
  single : ∀ (i j : ℕ) (t u : Flush), q.tasks[i]? = some t → q.tasks[j]? = some u → t ≠ .ended →
    u ≠ .ended → i = j
  at_rest : q.Resting → q.pending = [] ∧ q.waitingCalls = []
  rests : ComesToRest address q

theorem OrderInv.getLast? (h : OrderInv q) (entry : ℤ) :
    ((pops q.log ++ q.pending ++ q.waitingCalls).filter (coalescableFor entry)).getLast? =
      (q.calls.filter (coalescableFor entry)).getLast? := by
  have hlast : ((survivors overtakes q.log).filter (coalescableFor entry)).getLast? =
      ((entries q.log).filter (coalescableFor entry)).getLast? :=
    Overtaking.getLast?_survivors h.entries_ascending
      fun d c hover hc => coalescableFor_of_overtakes hover hc
  calc ((pops q.log ++ q.pending ++ q.waitingCalls).filter (coalescableFor entry)).getLast?
      = ((survivors overtakes q.log ++ q.waitingCalls).filter (coalescableFor entry)).getLast? := by
        rw [h.ordered]
    _ = ((entries q.log ++ q.waitingCalls).filter (coalescableFor entry)).getLast? := by
        rw [List.filter_append, List.filter_append, List.getLast?_append, List.getLast?_append,
          hlast]
    _ = (q.calls.filter (coalescableFor entry)).getLast? := by
        rw [h.calls, List.append_nil]

theorem OrderInv.events (h : OrderInv q) (hc : c ∈ q.calls) (hevent : c.coalesce = false) :
    (pops q.log ++ q.pending ++ q.waitingCalls).count c = 1 := by
  have hfree : overtaken overtakes c q.log = false := by
    rw [Bool.eq_false_iff]
    intro hover
    obtain ⟨d, -, hdc⟩ := Overtaking.exists_overtaker hover
    simp [overtakes, displaces, replaced, hevent] at hdc
  have hnodup : (survivors overtakes q.log ++ q.waitingCalls).Nodup := by
    have hall := nodup_of_ascending h.ascending
    rw [List.append_nil] at hall
    exact hall.sublist (List.filter_sublist.append (List.Sublist.refl _))
  rw [← h.ordered]
  refine List.count_eq_one_of_mem hnodup ?_
  rw [h.calls, List.append_nil] at hc
  rcases List.mem_append.mp hc with hentered | hwaiting
  · exact List.mem_append_left _ (List.mem_filter.mpr ⟨hentered, by simp [hfree]⟩)
  · exact List.mem_append_right _ hwaiting

theorem OrderInv.drainsInOrder (h : OrderInv q) : DrainsInOrder address q := by
  have hascending : (pops q.log ++ q.pending).Pairwise fun a b => a.waiter < b.waiter := by
    rw [← h.ordered]
    exact h.entries_ascending.filter _
  have hpops := (List.pairwise_append.mp hascending).1
  exact
    { arrivals := by simpa using h.calls
      attempted := h.ordered.symm
      once := nodup_of_ascending hpops
      in_order := hpops
      events := fun c hc hevent => h.events hc hevent
      last_value := h.getLast?
      single := by
        intro i j t u ht hu halive halive'
        have hi := h.last_of_alive ht halive
        have hj := h.last_of_alive hu halive'
        omega
      at_rest := by
        rintro ⟨hlock, hended⟩
        refine ⟨?_, by simp [waitingCalls, hlock]⟩
        by_contra hpending
        exact h.busy hpending hended
      rests := h.toShape.comesToRest }

/-- In every interleaving of calls, turns at the lock, acknowledgements and outcomes. -/
theorem queue_drains_in_order (address : String) (acts : List QueueAct)
    (hcalm : ∀ a ∈ acts, a.Calm) :
    DrainsInOrder address (Runs.run (Queue.step address) Queue.empty acts) :=
  (orderInv_empty.run hcalm).drainsInOrder

/-- A slider moved three times while its first value is being written, and a button pressed twice
in between. -/
def sampleSlider : List QueueAct :=
  [.call 1 [10] true, .grant, .call 1 [20] true, .call 2 [1] false, .call 1 [30] true,
    .call 2 [1] false, .acknowledge 0 false, .finish 0 (.ok ()) false, .finish 0 (.ok ()) false]

theorem queue_drains_in_order_sample :
    DrainsInOrder "A4:C1:38:00:00:01"
      (Runs.run (Queue.step "A4:C1:38:00:00:01") Queue.empty sampleSlider) :=
  queue_drains_in_order _ _ (by simp [sampleSlider, QueueAct.Calm])

example : (pops (Runs.run (Queue.step "") Queue.empty sampleSlider).log).map Queued.value =
    [[10], [1], [30]] := by decide

end Queue

end BTHomeWritable.Receiver
