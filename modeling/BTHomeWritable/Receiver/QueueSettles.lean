import BTHomeWritable.Receiver.QueueOrder

/-!
# Every wait ends

A future is settled, or its command is on its way to be: waiting to enter,
pending, or held by the loop while `_write_now` has not acknowledged it.  The
invariant says so as a permutation of the numbers of all calls (`Owned`), and
`Truth` says what a future was settled to.

Two exits lose the command that the loop holds.  A `CancelledError` out of
`_write_now` passes the `except Exception` of the loop, and the `finally` settles
what is pending and not what was popped; a write listener that raises does so
between `_report` and `_settle`.  `Sound` leaves out these two.

Each section keeps the permutation (`enter_waits`, `take_waits`, `strand_waits`,
`stop_waits`, `loop_waits`), and so does each step that is `Sound`
(`WaitInv.step`).  `queue_ends_every_wait` says what callers can rely on in a run
of such steps, and `popped_command_left_waiting` is a run with a cancellation.
-/

namespace BTHomeWritable.Receiver

open Overtaking (Mark entries pops)

/-- In `_write_now`, before the acknowledgement. -/
def Flush.unanswered : Flush → Bool
  | .writing _ false => true
  | _ => false

/-- The command the loop holds for somebody who waits. -/
def Flush.held : Flush → List Queued
  | .writing c false => [c]
  | _ => []

namespace Queue

/-- Task `i` is in `_write_now` and its command has not been acknowledged. -/
def unanswered (q : Queue) (i : ℕ) : Bool := q.tasks[i]?.any Flush.unanswered

/-- No listener raises over a command that has not been settled, and a flush task is cancelled at
most once and not while it holds such a command. -/
def Sound (q : Queue) : QueueAct → Prop
  | .acknowledge i raises => ¬ (raises ∧ q.unanswered i)
  | .finish i _ raises => ¬ (raises ∧ q.unanswered i)
  | .cancel i => i ∉ q.cancelled ∧ ¬ q.unanswered i
  | _ => True

instance Sound.decidable (q : Queue) : ∀ a, Decidable (q.Sound a)
  | .call .. => inferInstanceAs (Decidable True)
  | .grant => inferInstanceAs (Decidable True)
  | .acknowledge i raises => inferInstanceAs (Decidable (¬ (raises ∧ q.unanswered i)))
  | .finish i _ raises => inferInstanceAs (Decidable (¬ (raises ∧ q.unanswered i)))
  | .cancel i => inferInstanceAs (Decidable (i ∉ q.cancelled ∧ ¬ q.unanswered i))

variable {q : Queue} {i : ℕ} {t : Flush} {c : Queued} {held : List Queued} {address : String}

/-! ## Who owns a wait -/

/-- Each call is settled, waits to enter, is pending, or is among `held`; and only one of these. -/
def Owned (held : List Queued) (q : Queue) : Prop :=
  (q.settled.map Prod.fst ++ (q.waitingCalls ++ q.pending ++ held).map Queued.waiter).Perm
    (List.range q.calls.length)

/-- `c` was overtaken by a newer command. -/
def Superseded (log : List (Mark Queued)) (w : ℕ) : Prop :=
  ∃ c ∈ entries log, ∃ d ∈ entries log, c.waiter = w ∧ overtakes d c = true

/-- What callers have been told is so. -/
structure Truth (q : Queue) : Prop where
  acked : ∀ w ∈ q.acknowledged, (w, .ok ()) ∈ q.settled
  told : ∀ w, (w, .ok ()) ∈ q.settled → w ∈ q.acknowledged ∨ Superseded q.log w

structure WaitInv (q : Queue) : Prop extends Shape q where
  owned : Owned q.current.held q
  busy : q.pending ≠ [] → q.current ≠ .ended
  leaving : q.current = .stopping → q.tasks.length - 1 ∈ q.cancelled
  truth : Truth q

theorem waitInv_empty : WaitInv empty where
  toShape := shape_empty
  owned := List.Perm.refl _
  busy := fun h => absurd rfl h
  leaving := by simp [current, empty]
  truth := ⟨by simp [empty], by simp [empty]⟩

theorem Owned.congr (h : Owned held q) {q' : Queue} {held' : List Queued}
    (hsettled : q'.settled = q.settled) (hcalls : q'.calls = q.calls)
    (hperm : (q'.waitingCalls ++ q'.pending ++ held').Perm (q.waitingCalls ++ q.pending ++ held)) :
    Owned held' q' := by
  unfold Owned at h ⊢
  rw [hsettled, hcalls]
  exact (List.Perm.append_left _ (hperm.map _)).trans h

/-- A command that is still owned has not been settled. -/
theorem Owned.not_settled (h : Owned held q)
    (hc : c ∈ q.waitingCalls ++ q.pending ++ held) : c.waiter ∉ q.settled.map Prod.fst := by
  have hnodup := h.nodup_iff.mpr List.nodup_range
  intro hmem
  exact (List.nodup_append.mp hnodup).2.2 _ hmem _ (List.mem_map_of_mem hc) rfl

/-- Settling a batch takes it out of what is owned. -/
theorem Owned.settleAll {items rest : List Queued} {r : Except WriteError Unit}
    (h : Owned held q) (hsplit : (q.waitingCalls ++ q.pending ++ held).Perm (items ++ rest)) :
    ((q.settleAll r items).settled.map Prod.fst ++ rest.map Queued.waiter).Perm
      (List.range q.calls.length) := by
  have hperm : (q.settled.map Prod.fst ++ (items.map Queued.waiter ++ rest.map Queued.waiter)).Perm
      (List.range q.calls.length) := by
    refine (List.Perm.append_left _ ?_).trans h
    rw [← List.map_append]
    exact (hsplit.map _).symm
  have hnodup : (q.settled.map Prod.fst ++ items.map Queued.waiter).Nodup := by
    have hall := hperm.nodup_iff.mpr List.nodup_range
    rw [← List.append_assoc] at hall
    exact (List.nodup_append.mp hall).1
  have hids : (items.map fun item => (item.waiter, r)).map Prod.fst = items.map Queued.waiter := by
    simp
  rw [settleAll_settled hnodup, List.map_append, hids, List.append_assoc]
  exact hperm

theorem Owned.settle {r : Except WriteError Unit} (h : Owned [c] q) :
    Owned [] (q.settle r c.waiter) := by
  have hsplit : (q.waitingCalls ++ q.pending ++ [c]).Perm ([c] ++ (q.waitingCalls ++ q.pending)) :=
    List.perm_append_comm
  have hperm := h.settleAll (r := r) hsplit
  simpa [Owned, Queue.settleAll, waitingCalls] using hperm

/-! ## What a settled future was set to -/

variable {r : Except WriteError Unit} {p : ℕ × Except WriteError Unit}

theorem settled_settle_of_mem {w : ℕ} (hp : p ∈ q.settled) : p ∈ (q.settle r w).settled := by
  unfold Queue.settle
  split
  · exact hp
  · exact List.mem_append_left _ hp

theorem mem_settled_settle {w : ℕ} (hp : p ∈ (q.settle r w).settled) :
    p ∈ q.settled ∨ p = (w, r) := by
  unfold Queue.settle at hp
  split at hp
  · exact Or.inl hp
  · rcases List.mem_append.mp hp with hold | hnew
    · exact Or.inl hold
    · exact Or.inr (List.mem_singleton.mp hnew)

theorem settled_settleAll_of_mem (items : List Queued) (hp : p ∈ q.settled) :
    p ∈ (q.settleAll r items).settled := by
  unfold Queue.settleAll
  induction items generalizing q with
  | nil => exact hp
  | cons item rest ih => exact ih (settled_settle_of_mem hp)

theorem mem_settled_settleAll {items : List Queued} (hp : p ∈ (q.settleAll r items).settled) :
    p ∈ q.settled ∨ ∃ item ∈ items, p = (item.waiter, r) := by
  unfold Queue.settleAll at hp
  induction items generalizing q with
  | nil => exact Or.inl hp
  | cons item rest ih =>
      rcases ih hp with hsettled | ⟨other, hother, hpr⟩
      · exact (mem_settled_settle hsettled).imp_right fun hnew => ⟨item, by simp, hnew⟩
      · exact Or.inr ⟨other, List.mem_cons_of_mem _ hother, hpr⟩

theorem Superseded.append {log : List (Mark Queued)} {w : ℕ} (h : Superseded log w)
    (mark : Mark Queued) : Superseded (log ++ [mark]) w := by
  obtain ⟨c, hc, d, hd, hw, hover⟩ := h
  have hmono : ∀ e ∈ entries log, e ∈ entries (log ++ [mark]) := by
    intro e he
    simp only [entries, List.filterMap_append]
    exact List.mem_append_left _ he
  exact ⟨c, hmono c hc, d, hmono d hd, hw, hover⟩

/-- Telling a failure leaves what is known of successes. -/
theorem Truth.settle_error (h : Truth q) (e : WriteError) (w : ℕ) :
    Truth (q.settle (.error e) w) where
  acked v hv := by
    rw [settle_acknowledged] at hv
    exact settled_settle_of_mem (h.acked v hv)
  told v hv := by
    rw [settle_acknowledged, settle_log]
    rcases mem_settled_settle hv with hold | hnew
    · exact h.told v hold
    · exact absurd hnew (by simp)

theorem Truth.done (h : Truth q) (hnew : c.waiter ∉ q.settled.map Prod.fst) :
    Truth (q.done c false) := by
  have hsettled : (q.done c false).settled = q.settled ++ [(c.waiter, .ok ())] :=
    settle_settled (q := { q with acknowledged := q.acknowledged ++ [c.waiter] }) hnew
  have hacknowledged : (q.done c false).acknowledged = q.acknowledged ++ [c.waiter] := by
    simp [Queue.done]
  have hlog : (q.done c false).log = q.log := done_log c false
  refine ⟨?_, ?_⟩
  · intro w hw
    rw [hacknowledged] at hw
    rw [hsettled]
    rcases List.mem_append.mp hw with hold | hlast
    · exact List.mem_append_left _ (h.acked w hold)
    · rw [List.mem_singleton.mp hlast]
      exact List.mem_append_right _ (by simp)
  · intro w hw
    rw [hsettled] at hw
    rw [hacknowledged, hlog]
    rcases List.mem_append.mp hw with hold | hlast
    · exact (h.told w hold).imp_left (List.mem_append_left _)
    · obtain ⟨rfl, -⟩ := Prod.mk.inj (List.mem_singleton.mp hlast)
      exact Or.inl (by simp)

/-! ## The sections -/

theorem strand_waits (hrunning : Running q i) (howned : Owned [] q) (htruth : Truth q) :
    WaitInv (q.strand address i) := by
  have hshape : Shape (q.strand address i) := strand_shape hrunning
  unfold strand at hshape ⊢
  rw [settleAll_eq] at hshape ⊢
  refine
    { toShape := hshape
      owned := ?_
      busy := fun hne => absurd rfl hne
      leaving := ?_
      truth := ⟨fun w hw => settled_settleAll_of_mem _ (htruth.acked w hw), fun w hw => ?_⟩ }
  · have hsplit : (q.waitingCalls ++ q.pending ++ []).Perm (q.pending ++ q.waitingCalls) := by
      rw [List.append_nil]
      exact List.perm_append_comm
    have hperm := howned.settleAll (r := .error (queueStopped address)) hsplit
    rw [current_set hrunning.last rfl]
    simpa [Owned, Flush.held, waitingCalls] using hperm
  · rw [current_set hrunning.last rfl]
    exact fun hnot => absurd hnot (by simp)
  · rcases mem_settled_settleAll hw with hold | ⟨item, -, hnew⟩
    · exact htruth.told w hold
    · exact absurd hnew (by simp)

theorem stop_waits (hrunning : Running q i) (howned : Owned [] q) (htruth : Truth q)
    (hcancelled : q.lock ≠ [] → i ∈ q.cancelled) : WaitInv (q.stop address i) := by
  have hshape : Shape (q.stop address i) := stop_shape hrunning
  unfold stop at hshape ⊢
  by_cases hlock : q.lock = []
  · rw [if_pos hlock]
    exact strand_waits hrunning howned htruth
  · rw [if_neg hlock] at hshape ⊢
    refine
      { toShape := hshape, owned := ?_, busy := fun _ => ?_, leaving := fun _ => ?_, truth := ?_ }
    · rw [current_set hrunning.last rfl]
      exact howned.congr rfl rfl (by simp [Flush.held, waitingCalls, List.filterMap_cons])
    · rw [current_set hrunning.last rfl]
      simp
    · have hlast : (q.tasks.set i .stopping).length - 1 = i := by
        rw [List.length_set, ← hrunning.last, Nat.add_sub_cancel]
      show (q.tasks.set i .stopping).length - 1 ∈ q.cancelled
      rw [hlast]
      exact hcancelled hlock
    · exact ⟨htruth.acked, htruth.told⟩

theorem take_waits (hrunning : Running q i) (howned : Owned [] q) (htruth : Truth q)
    (hempty : q.pending = [] → q.lock = []) : WaitInv (q.take address i) := by
  have hshape : Shape (q.take address i) := take_shape hrunning
  unfold take at hshape ⊢
  cases hpending : q.pending with
  | nil => exact stop_waits hrunning howned htruth fun hlock => absurd (hempty hpending) hlock
  | cons c rest =>
      simp only [hpending] at hshape ⊢
      refine
        { toShape := hshape
          owned := ?_
          busy := fun _ => ?_
          leaving := ?_
          truth := ⟨htruth.acked, fun w hw => (htruth.told w hw).imp_right fun h => h.append _⟩ }
      · rw [current_set hrunning.last rfl]
        refine howned.congr rfl rfl ?_
        rw [hpending, List.append_nil]
        show (q.waitingCalls ++ rest ++ [c]).Perm (q.waitingCalls ++ c :: rest)
        rw [List.append_assoc]
        exact List.Perm.append_left _ (List.perm_append_singleton c rest)
      · rw [current_set hrunning.last rfl]
        simp
      · rw [current_set hrunning.last rfl]
        exact fun hnot => absurd hnot (by simp)

theorem loop_waits (hrunning : Running q i) (howned : Owned [] q) (htruth : Truth q) :
    WaitInv (q.loop address i) := by
  have hshape : Shape (q.loop address i) := loop_shape hrunning
  unfold loop at hshape ⊢
  by_cases hlock : q.lock = []
  · rw [if_pos hlock]
    exact take_waits hrunning howned htruth fun _ => hlock
  · rw [if_neg hlock] at hshape ⊢
    refine
      { toShape := hshape, owned := ?_, busy := fun _ => ?_, leaving := ?_, truth := ?_ }
    · rw [current_set hrunning.last rfl]
      exact howned.congr rfl rfl (by simp [Flush.held, waitingCalls, List.filterMap_cons])
    · rw [current_set hrunning.last rfl]
      simp
    · rw [current_set hrunning.last rfl]
      exact fun hnot => absurd hnot (by simp)
    · exact ⟨htruth.acked, htruth.told⟩

theorem held_startFlush (q : Queue) : q.startFlush.current.held = q.current.held := by
  rw [current_startFlush]
  split
  · rename_i hended
    rw [hended]
    rfl
  · rfl

theorem startFlush_waits (hshape : Shape q.startFlush) (howned : Owned q.current.held q)
    (htruth : Truth q) (hleaving : q.current = .stopping → q.tasks.length - 1 ∈ q.cancelled) :
    WaitInv q.startFlush := by
  have hheld := held_startFlush q
  have hbusy := current_startFlush_ne_ended q
  rcases startFlush_cases q with ⟨-, hstart⟩ | ⟨-, hstart⟩
  · rw [hstart] at hshape hheld hbusy ⊢
    refine
      { toShape := hshape
        owned := ?_
        busy := fun _ => hbusy
        leaving := ?_
        truth := ⟨htruth.acked, htruth.told⟩ }
    · rw [hheld]
      exact howned.congr rfl rfl (by simp [waitingCalls, List.filterMap_cons])
    · simp [current]
  · rw [hstart] at hshape hbusy ⊢
    exact
      { toShape := hshape
        owned := howned
        busy := fun _ => hbusy
        leaving := hleaving
        truth := htruth }

theorem enter_waits (hcore : Core [c] q)
    (hflushes : q.waitingFlushes = if q.current.atLock then [q.tasks.length - 1] else [])
    (howned : Owned (c :: q.current.held) q) (htruth : Truth q)
    (hleaving : q.current = .stopping → q.tasks.length - 1 ∈ q.cancelled) :
    WaitInv (q.enter c) := by
  have hshape := enter_shape hcore hflushes
  -- the displaced are settled, the newcomer is pending, the rest stay where they are
  have hsplit : (q.waitingCalls ++ q.pending ++ (c :: q.current.held)).Perm
      (q.pending.filter (displaces c) ++
        (q.waitingCalls ++ ((q.pending.filter fun item => !displaces c item) ++ [c]) ++
          q.current.held)) := by
    rw [List.perm_iff_count]
    intro item
    have hcount := (List.filter_append_perm (displaces c) q.pending).count_eq item
    simp only [List.count_append, List.count_cons, List.count_nil] at hcount ⊢
    omega
  have hperm := howned.settleAll (r := .ok ()) hsplit
  rw [enter_eq] at hshape ⊢
  refine startFlush_waits hshape hperm ⟨?_, ?_⟩ hleaving
  · exact fun w hw => settled_settleAll_of_mem _ (htruth.acked w hw)
  · intro w hw
    rcases mem_settled_settleAll hw with hold | ⟨item, hitem, hnew⟩
    · exact (htruth.told w hold).imp_right fun h => h.append _
    · obtain ⟨rfl, -⟩ := Prod.mk.inj hnew
      obtain ⟨hpending, hdisplaced⟩ := List.mem_filter.mp hitem
      have hentered := hcore.queued hpending
      refine Or.inr ⟨item, ?_, c, ?_, rfl, ?_⟩
      · rw [Overtaking.entries_append_entered]
        exact List.mem_append_left _ hentered
      · rw [Overtaking.entries_append_entered]
        exact List.mem_append_right _ (by simp)
      · simp [overtakes, hdisplaced, hcore.lt_of_mem_entries hentered]

/-! ## One step -/

theorem unanswered_of_getElem? (ht : q.tasks[i]? = some t) :
    q.unanswered i = t.unanswered := by
  simp [unanswered, ht]

/-- The loop holds what it has not answered. -/
theorem WaitInv.owned_at (h : WaitInv q) (ht : q.tasks[i]? = some t) (halive : t ≠ .ended) :
    Owned t.held q := by
  rw [← current_of_getElem? (h.last_of_alive ht halive) ht]
  exact h.owned

/-- The command is acknowledged, and nobody raises. -/
theorem Owned.done (h : Owned [c] q) : Owned [] (q.done c false) := by
  have hnoted : Owned [c] { q with acknowledged := q.acknowledged ++ [c.waiter] } := h
  exact hnoted.settle

theorem WaitInv.step_call (h : WaitInv q) (entry : ℤ) (value : Bytes) (coalesce : Bool) :
    WaitInv (q.step address (.call entry value coalesce)) := by
  have hshape : Shape (q.step address (.call entry value coalesce)) := step_shape h.toShape _
  have howned : ∀ c : Queued, c.waiter = q.calls.length →
      Owned (c :: q.current.held) { q with calls := q.calls ++ [c] } := by
    intro c hc
    have hold := h.owned
    unfold Owned at hold ⊢
    rw [List.length_append, List.length_singleton, List.range_succ]
    refine List.Perm.trans ?_ (hold.append_right [q.calls.length])
    rw [List.perm_iff_count]
    intro w
    simp only [waitingCalls, List.map_append, List.map_cons, hc, List.count_append,
      List.count_cons, List.count_nil]
    omega
  simp only [Queue.step] at hshape ⊢
  by_cases hlock : q.lock = []
  · rw [if_pos hlock]
    exact enter_waits (h.arrive hlock rfl) h.flushes (howned _ rfl) ⟨h.truth.acked, h.truth.told⟩
      h.leaving
  · rw [if_neg hlock] at hshape ⊢
    refine
      { toShape := hshape
        owned := (howned _ rfl).congr rfl rfl ?_
        busy := h.busy
        leaving := h.leaving
        truth := ⟨h.truth.acked, h.truth.told⟩ }
    rw [List.perm_iff_count]
    intro item
    simp only [waitingCalls, List.filterMap_append, List.filterMap_cons, call?_call,
      List.filterMap_nil, List.count_append, List.count_cons, List.count_nil, current]
    omega

theorem WaitInv.step_grant (h : WaitInv q) : WaitInv (q.step address .grant) := by
  simp only [Queue.step]
  split
  · exact h
  · rename_i c rest hlock
    obtain ⟨hcore, hflushes⟩ := h.admit hlock
    refine enter_waits hcore hflushes ?_ ⟨h.truth.acked, h.truth.told⟩ h.leaving
    refine h.owned.congr rfl rfl ?_
    rw [List.perm_iff_count]
    intro item
    simp only [waitingCalls, hlock, List.filterMap_cons, call?_call, List.count_append,
      List.count_cons, current]
    omega
  · rename_i i rest hlock
    have hkept : ∀ held, Owned held q → Owned held { q with lock := rest } := by
      intro held howned
      exact howned.congr rfl rfl (by simp [waitingCalls, hlock, List.filterMap_cons])
    split
    · rename_i ht
      have hfull := h.pending_of_granted hlock ht
      exact take_waits (h.running_granted hlock ht rfl) (hkept _ (h.owned_at ht (by simp)))
        ⟨h.truth.acked, h.truth.told⟩ fun hempty => absurd hempty hfull
    · rename_i ht
      exact strand_waits (h.running_granted hlock ht rfl) (hkept _ (h.owned_at ht (by simp)))
        ⟨h.truth.acked, h.truth.told⟩
    · exact h

theorem WaitInv.step_acknowledge (h : WaitInv q) {raises : Bool}
    (ha : q.Sound (.acknowledge i raises)) : WaitInv (q.step address (.acknowledge i raises)) := by
  have hshape : Shape (q.step address (.acknowledge i raises)) := step_shape h.toShape _
  simp only [Queue.step] at hshape ⊢
  split at hshape
  · rename_i c ht
    have hquiet : raises = false := by
      have hunanswered : q.unanswered i = true := unanswered_of_getElem? ht
      simpa [Sound, hunanswered] using ha
    subst hquiet
    have howned : Owned [c] { q with tasks := q.tasks.set i (.writing c true) } :=
      (h.owned_at ht (by simp)).congr rfl rfl (by simp [waitingCalls, Flush.held])
    have htruth : Truth { q with tasks := q.tasks.set i (.writing c true) } :=
      ⟨h.truth.acked, h.truth.told⟩
    have hcurrent := current_acknowledged (h.running_writing ht).last c false
    refine
      { toShape := hshape
        owned := ?_
        busy := fun _ => ?_
        leaving := ?_
        truth := htruth.done (howned.not_settled (by simp)) }
    · rw [hcurrent]
      exact howned.done
    · rw [hcurrent]
      simp
    · rw [hcurrent]
      exact fun hnot => absurd hnot (by simp)
  · exact h

theorem WaitInv.step_finish (h : WaitInv q) {result : Except WriteError Unit} {raises : Bool}
    (ha : q.Sound (.finish i result raises)) :
    WaitInv (q.step address (.finish i result raises)) := by
  have hquiet : ∀ c, q.tasks[i]? = some (.writing c false) → raises = false := by
    intro c ht
    have hunanswered : q.unanswered i = true := unanswered_of_getElem? ht
    simpa [Sound, hunanswered] using ha
  simp only [Queue.step]
  split
  · rename_i ht
    exact loop_waits (h.running_writing ht) (h.owned_at ht (by simp)) h.truth
  · rename_i c ht
    obtain rfl := hquiet c ht
    have howned : Owned [c] q := h.owned_at ht (by simp)
    rw [if_neg (by simp)]
    exact loop_waits ((h.running_writing ht).done _ _) howned.done
      (h.truth.done (howned.not_settled (by simp)))
  · rename_i c e ht
    obtain rfl := hquiet c ht
    have howned : Owned [c] q := h.owned_at ht (by simp)
    rw [if_neg (by simp)]
    exact loop_waits ((h.running_writing ht).settle _ _) howned.settle (h.truth.settle_error _ _)
  · exact h

theorem WaitInv.step_cancel (h : WaitInv q) (ha : q.Sound (.cancel i)) :
    WaitInv (q.step address (.cancel i)) := by
  obtain ⟨hfirst, hanswered⟩ := ha
  simp only [Queue.step]
  split
  · rename_i ht
    have hrunning : Running { q with
        lock := q.lock.erase (.flush i), cancelled := q.cancelled ++ [i] } i :=
      (h.running_cancelled ht rfl).congr rfl rfl rfl rfl rfl
    have hwaiting := h.waitingCalls_erase ht rfl
    refine stop_waits hrunning ?_ ⟨h.truth.acked, h.truth.told⟩ fun _ => by simp
    refine (h.owned_at ht (by simp)).congr rfl rfl ?_
    rw [← hwaiting]
    exact List.Perm.refl _
  · rename_i c answered ht
    have hrunning : Running { q with cancelled := q.cancelled ++ [i] } i :=
      (h.running_writing ht).congr rfl rfl rfl rfl rfl
    have hheld : (Flush.writing c answered).held = [] := by
      cases answered with
      | true => rfl
      | false => exact absurd (unanswered_of_getElem? ht) hanswered
    have howned : Owned [] q := hheld ▸ h.owned_at ht (by simp)
    exact stop_waits hrunning howned ⟨h.truth.acked, h.truth.told⟩ fun _ => by simp
  · rename_i ht
    -- A task in its `finally` was cancelled before, and that was its one time.
    have hlast := h.last_of_alive ht (by simp)
    have hmem := h.leaving (current_of_getElem? hlast ht)
    rw [← hlast, Nat.add_sub_cancel] at hmem
    exact absurd hmem hfirst
  · exact h

theorem WaitInv.step (h : WaitInv q) {a : QueueAct} (ha : q.Sound a) :
    WaitInv (q.step address a) := by
  match a with
  | .call entry value coalesce => exact h.step_call entry value coalesce
  | .grant => exact h.step_grant
  | .acknowledge i raises => exact h.step_acknowledge ha
  | .finish i result raises => exact h.step_finish ha
  | .cancel i => exact h.step_cancel ha

theorem WaitInv.run (h : WaitInv q) {acts : List QueueAct}
    (hsound : Runs.Along (Queue.step address) Sound q acts) :
    WaitInv (Runs.run (Queue.step address) q acts) := by
  have hstep : ∀ (q : Queue) (a : QueueAct), WaitInv q → q.Sound a → WaitInv (q.step address a) :=
    fun _ _ hq ha => hq.step ha
  exact Runs.run_invariant hstep h hsound

/-! ## What callers can rely on -/

structure EndsEveryWait (address : String) (q : Queue) : Prop where
  settled_once : (q.settled.map Prod.fst).Nodup
  owned : Owned q.current.held q
  /-- Once the flush task has ended, whatever entered the queue is settled. -/
  ended : (∀ t ∈ q.tasks, t = .ended) → ∀ c ∈ entries q.log, c.waiter ∈ q.settled.map Prod.fst
  success : ∀ w, (w, .ok ()) ∈ q.settled → w ∈ q.acknowledged ∨ Superseded q.log w
  failure : ∀ w e, (w, .error e) ∈ q.settled → w ∉ q.acknowledged
  at_rest : q.Resting → (q.settled.map Prod.fst).Perm (List.range q.calls.length)
  rests : ComesToRest address q

/-- Over a flush task that has ended, only those who wait to enter are still waiting. -/
theorem WaitInv.owned_of_ended (h : WaitInv q) (hended : q.current = .ended) :
    (q.settled.map Prod.fst ++ q.waitingCalls.map Queued.waiter).Perm
      (List.range q.calls.length) := by
  have hpending : q.pending = [] := by
    by_contra hne
    exact h.busy hne hended
  have howned := h.owned
  rw [hended] at howned
  simpa [Owned, Flush.held, hpending] using howned

theorem WaitInv.endsEveryWait (h : WaitInv q) : EndsEveryWait address q := by
  have hnodup : (q.settled.map Prod.fst).Nodup :=
    (List.nodup_append.mp (h.owned.nodup_iff.mpr List.nodup_range)).1
  refine
    { settled_once := hnodup
      owned := h.owned
      ended := ?_
      success := h.truth.told
      failure := ?_
      at_rest := ?_
      rests := h.toShape.comesToRest }
  · intro hall c hc
    have hended : q.current = .ended := by
      by_contra halive
      obtain ⟨i, hi⟩ := exists_task_of_current halive
      exact halive (hall _ (List.mem_of_getElem? hi))
    have hmem : c.waiter ∈ List.range q.calls.length := by
      rw [← h.numbered, h.calls]
      exact List.mem_map_of_mem (by simp [hc])
    rcases List.mem_append.mp ((h.owned_of_ended hended).mem_iff.mpr hmem) with hsettled | hwaiting
    · exact hsettled
    · obtain ⟨d, hd, hdc⟩ := List.mem_map.mp hwaiting
      have hascending := h.ascending
      rw [List.append_nil] at hascending
      exact absurd ((List.pairwise_append.mp hascending).2.2 c hc d hd) (by omega)
  · -- an acknowledged call is settled with success, and no call is settled twice
    intro w e hw hacked
    have hsame := List.inj_on_of_nodup_map hnodup hw (h.truth.acked w hacked) rfl
    exact absurd hsame (by simp)
  · rintro ⟨hlock, hended⟩
    simpa [waitingCalls, hlock] using h.owned_of_ended hended

/-- In every interleaving in which no listener raises over an unsettled command and nobody
cancels the flush task while it holds one. -/
theorem queue_ends_every_wait (address : String) (acts : List QueueAct)
    (hsound : Runs.Along (Queue.step address) Sound Queue.empty acts) :
    EndsEveryWait address (Runs.run (Queue.step address) Queue.empty acts) :=
  (waitInv_empty.run hsound).endsEveryWait

/-- A command is replaced, one fails and one is in the air when the integration is unloaded. -/
def sampleUnload : List QueueAct :=
  [.call 1 [10] true, .grant, .call 1 [20] true, .call 1 [30] true, .call 2 [1] false,
    .finish 0 (.error ⟨"unreachable"⟩) false, .acknowledge 0 false, .cancel 0]

theorem queue_ends_every_wait_sample :
    EndsEveryWait "A4:C1:38:00:00:01"
      (Runs.run (Queue.step "A4:C1:38:00:00:01") Queue.empty sampleUnload) :=
  queue_ends_every_wait _ _ (by decide +kernel)

/-- The flush task is cancelled while its one command is being written. -/
def sampleCancelled : List QueueAct := [.call 1 [1] true, .grant, .cancel 0]

/-- A listener raises when it is told of the acknowledgement, and so out of `_write_now`. -/
def sampleListener : List QueueAct :=
  [.call 1 [1] true, .grant, .acknowledge 0 true, .finish 0 (.error ⟨"listener"⟩) false]

/-- Both times the flush task ends, and the future of the command it had popped stays open. -/
theorem popped_command_left_waiting :
    (pops (Runs.run (Queue.step "") Queue.empty sampleCancelled).log = [⟨1, [1], true, 0⟩] ∧
      (Runs.run (Queue.step "") Queue.empty sampleCancelled).tasks = [.ended] ∧
      (Runs.run (Queue.step "") Queue.empty sampleCancelled).settled = []) ∧
    (pops (Runs.run (Queue.step "") Queue.empty sampleListener).log = [⟨1, [1], true, 0⟩] ∧
      (Runs.run (Queue.step "") Queue.empty sampleListener).tasks = [.ended] ∧
      (Runs.run (Queue.step "") Queue.empty sampleListener).settled = []) := by
  decide +kernel

end Queue

end BTHomeWritable.Receiver
