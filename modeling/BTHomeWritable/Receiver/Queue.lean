import BTHomeWritable.Lib.Overtaking
import BTHomeWritable.Lib.Runs
import BTHomeWritable.Wire

/-!
# The write queue

`async_write` and `_flush_soon` of the coordinator, as steps of one machine.
What runs between two awaits is one step.  The sections under `_pending_lock`
hold no await, so the lock is only ever waited for while somebody else is due
to have it; `asyncio.Lock` is fair, and a newcomer queues behind those who wait.
`hass.async_create_task` starts a task eagerly: a flush task made inside the
section of an `async_write` waits for the lock before that section ends.

The sections have names of their own: `enter` is that of `async_write`, `take`
that of the loop and `strand` that of its `finally`; `loop` and `stop` lead to the
two, by way of the lock where it is taken.  `replaced` tells which pending command
a newer one for the same entry takes the place of.

A future is the number of its call.  `queued_at`, which is only measured, is
left out.  `log`, `acknowledged` and `cancelled` record history; no step reads
them.
-/

namespace BTHomeWritable.Receiver

open Overtaking (Mark)

/-- An exception of the write path, by its text. -/
structure WriteError where
  message : String
  deriving DecidableEq

/-- `_Queued`. -/
structure Queued where
  entry : ℤ
  value : Bytes
  coalesce : Bool
  waiter : ℕ
  deriving DecidableEq

/-- Who waits for `_pending_lock`. -/
inductive Waiting where
  | call (c : Queued)
  | flush (task : ℕ)
  deriving DecidableEq

/-- Where a flush task stands: at the lock of its loop, in `_write_now`, at the lock of its
`finally`, or done. -/
inductive Flush where
  | acquiring
  | writing (c : Queued) (answered : Bool)
  | stopping
  | ended
  deriving DecidableEq

structure Queue where
  pending : List Queued
  lock : List Waiting
  /-- Every flush task made; `_flush_task` is the last. -/
  tasks : List Flush
  /-- The futures that are done and what they were set to. -/
  settled : List (ℕ × Except WriteError Unit)
  calls : List Queued
  log : List (Mark Queued)
  acknowledged : List ℕ
  cancelled : List ℕ

/-- What can happen next.  `raises` says whether a write listener raises when it is told;
`finish` is `_write_now` returning or raising an `Exception`, and `cancel` a `CancelledError`
at whatever the task awaits. -/
inductive QueueAct where
  | call (entry : ℤ) (value : Bytes) (coalesce : Bool)
  | grant
  | acknowledge (task : ℕ) (raises : Bool)
  | finish (task : ℕ) (result : Except WriteError Unit) (raises : Bool)
  | cancel (task : ℕ)

namespace Queue

def empty : Queue := ⟨[], [], [], [], [], [], [], []⟩

/-- `_settle`. -/
def settle (q : Queue) (r : Except WriteError Unit) (waiter : ℕ) : Queue :=
  if waiter ∈ q.settled.map Prod.fst then q else { q with settled := q.settled ++ [(waiter, r)] }

/-- `_settle` for the waiter of each item. -/
def settleAll (q : Queue) (r : Except WriteError Unit) (items : List Queued) : Queue :=
  items.foldl (fun q item => q.settle r item.waiter) q

/-- `_flush_task is None or _flush_task.done()`. -/
def flushDone (q : Queue) : Bool := q.tasks.getLast?.all (· = .ended)

/-- `item.entry == entry and item.coalesce`. -/
def replaced (c item : Queued) : Bool := item.entry = c.entry && item.coalesce

/-- `_flush_task = hass.async_create_task(_flush_soon())`, unless one is at work. -/
def startFlush (q : Queue) : Queue :=
  if q.flushDone then
    { q with tasks := q.tasks ++ [.acquiring], lock := q.lock ++ [.flush q.tasks.length] }
  else q

/-- The section of `async_write`. -/
def enter (q : Queue) (c : Queued) : Queue :=
  let q : Queue :=
    if c.coalesce then
      { q.settleAll (.ok ()) (q.pending.filter (replaced c)) with
        pending := q.pending.filter fun item => !replaced c item }
    else q
  startFlush { q with pending := q.pending ++ [c], log := q.log ++ [.entered c] }

variable (address : String)

def queueStopped : WriteError := ⟨s!"{address}: the write queue stopped"⟩

/-- The section of `finally`, and the end of the task. -/
def strand (q : Queue) (i : ℕ) : Queue :=
  { q.settleAll (.error (queueStopped address)) q.pending with
    pending := []
    tasks := q.tasks.set i .ended }

/-- Whatever ends the loop, on to `finally`. -/
def stop (q : Queue) (i : ℕ) : Queue :=
  if q.lock = [] then q.strand address i
  else { q with tasks := q.tasks.set i .stopping, lock := q.lock ++ [.flush i] }

/-- The section of the loop, and into `_write_now`. -/
def take (q : Queue) (i : ℕ) : Queue :=
  match q.pending with
  | [] => q.stop address i
  | c :: rest =>
      { q with
        pending := rest
        tasks := q.tasks.set i (.writing c false)
        log := q.log ++ [.popped c] }

/-- Once more around the loop. -/
def loop (q : Queue) (i : ℕ) : Queue :=
  if q.lock = [] then q.take address i
  else { q with tasks := q.tasks.set i .acquiring, lock := q.lock ++ [.flush i] }

/-- `done`, up to the report to the listeners and past it. -/
def done (q : Queue) (c : Queued) (raises : Bool) : Queue :=
  let q : Queue := { q with acknowledged := q.acknowledged ++ [c.waiter] }
  if raises then q else q.settle (.ok ()) c.waiter

def step (q : Queue) : QueueAct → Queue
  | .call entry value coalesce =>
      let c : Queued := ⟨entry, value, coalesce, q.calls.length⟩
      let q : Queue := { q with calls := q.calls ++ [c] }
      if q.lock = [] then q.enter c else { q with lock := q.lock ++ [Waiting.call c] }
  | .grant =>
      match q.lock with
      | [] => q
      | .call c :: rest => { q with lock := rest }.enter c
      | .flush i :: rest =>
          match q.tasks[i]? with
          | some .acquiring => { q with lock := rest }.take address i
          | some .stopping => { q with lock := rest }.strand address i
          | _ => q
  | .acknowledge i raises =>
      match q.tasks[i]? with
      | some (.writing c false) => { q with tasks := q.tasks.set i (.writing c true) }.done c raises
      | _ => q
  | .finish i result raises =>
      match q.tasks[i]?, result with
      | some (.writing _ true), _ => q.loop address i
      | some (.writing c false), .ok () =>
          if raises then (q.done c raises).stop address i else (q.done c raises).loop address i
      | some (.writing c false), .error e =>
          if raises then q.stop address i else (q.settle (.error e) c.waiter).loop address i
      | _, _ => q
  | .cancel i =>
      match q.tasks[i]? with
      | some .acquiring =>
          { q with lock := q.lock.erase (.flush i), cancelled := q.cancelled ++ [i] }.stop address i
      | some (.writing _ _) => { q with cancelled := q.cancelled ++ [i] }.stop address i
      | some .stopping =>
          { q with
            lock := q.lock.erase (.flush i)
            cancelled := q.cancelled ++ [i]
            tasks := q.tasks.set i .ended }
      | _ => q

/-! ## Settling -/

variable {q : Queue} {r : Except WriteError Unit}

@[simp] theorem settle_pending (w : ℕ) : (q.settle r w).pending = q.pending := by
  unfold settle; split <;> rfl
@[simp] theorem settle_lock (w : ℕ) : (q.settle r w).lock = q.lock := by
  unfold settle; split <;> rfl
@[simp] theorem settle_tasks (w : ℕ) : (q.settle r w).tasks = q.tasks := by
  unfold settle; split <;> rfl
@[simp] theorem settle_calls (w : ℕ) : (q.settle r w).calls = q.calls := by
  unfold settle; split <;> rfl
@[simp] theorem settle_log (w : ℕ) : (q.settle r w).log = q.log := by
  unfold settle; split <;> rfl
@[simp] theorem settle_acknowledged (w : ℕ) : (q.settle r w).acknowledged = q.acknowledged := by
  unfold settle; split <;> rfl
@[simp] theorem settle_cancelled (w : ℕ) : (q.settle r w).cancelled = q.cancelled := by
  unfold settle; split <;> rfl

theorem settle_settled {w : ℕ} (h : w ∉ q.settled.map Prod.fst) :
    (q.settle r w).settled = q.settled ++ [(w, r)] := by
  unfold settle
  rw [if_neg h]

@[simp] theorem done_pending (c : Queued) (raises : Bool) :
    (q.done c raises).pending = q.pending := by
  unfold done; cases raises <;> simp
@[simp] theorem done_lock (c : Queued) (raises : Bool) : (q.done c raises).lock = q.lock := by
  unfold done; cases raises <;> simp
@[simp] theorem done_tasks (c : Queued) (raises : Bool) : (q.done c raises).tasks = q.tasks := by
  unfold done; cases raises <;> simp
@[simp] theorem done_calls (c : Queued) (raises : Bool) : (q.done c raises).calls = q.calls := by
  unfold done; cases raises <;> simp
@[simp] theorem done_log (c : Queued) (raises : Bool) : (q.done c raises).log = q.log := by
  unfold done; cases raises <;> simp

/-- Settling moves nothing but the futures. -/
theorem settleAll_eq (items : List Queued) :
    q.settleAll r items = { q with settled := (q.settleAll r items).settled } := by
  unfold settleAll
  induction items generalizing q with
  | nil => rfl
  | cons item rest ih =>
      rw [List.foldl_cons, ih]
      simp

theorem settleAll_settled {items : List Queued}
    (h : (q.settled.map Prod.fst ++ items.map Queued.waiter).Nodup) :
    (q.settleAll r items).settled = q.settled ++ items.map fun item => (item.waiter, r) := by
  unfold settleAll
  induction items generalizing q with
  | nil => simp
  | cons item rest ih =>
      have hnew : item.waiter ∉ q.settled.map Prod.fst := by
        intro hmem
        exact (List.nodup_append.mp h).2.2 _ hmem _ (by simp) rfl
      have hsettled := settle_settled (r := r) hnew
      rw [List.foldl_cons, ih (by rw [hsettled]; simpa using h), hsettled]
      simp

end Queue

end BTHomeWritable.Receiver
