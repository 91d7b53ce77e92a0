import BTHomeWritable.Receiver.Slots

/-!
# What the connection gate keeps

Every caller that holds a slot is counted once, whatever is cancelled when.  The
argument is about `_admit`: run outside a hold-off it leaves nobody in a queue
unless the gate is full, and inside one it leaves the timer of the hold-off.

* `Accounted` is the gate apart from its queues; it holds in the middle of `_admit`
  as well.
* `QueueOk` says of a queue that whoever is in it has not been admitted, and that
  everybody whose future is pending is in it, once.
* `SlotsInv` is both, with `full`: where somebody waits, no slot is free or the
  timer of a hold-off is set.  `admitWaiters_inv` is where this is earned.

Each operation has its lemma, `SlotsInv.resize` to `SlotsInv.fire`, and
`SlotsInv.step` goes through the steps.  What a step does to the callers it is not
about, `StepOf`, is for those who use the gate.  `gate_kept` is the whole run.
-/

namespace BTHomeWritable.Receiver.Slots

/-- A queue of one kind holds the waiters of this kind whose future is not done, and cancelled
ones that have not resumed yet. -/
structure QueueOk (callers : List Caller) (urgent : Bool) (queue : List ℕ) : Prop where
  waiting : ∀ i ∈ queue, ∃ future cancelling,
    callers[i]? = some (.waiting urgent future cancelling) ∧ future ≠ .admitted
  nodup : queue.Nodup
  pending : ∀ i cancelling, callers[i]? = some (.waiting urgent .pending cancelling) → i ∈ queue

/-- The gate apart from its queues. -/
structure Accounted (s : Slots) : Prop where
  count : s.inFlight = s.callers.countP Caller.holdsSlot
  limit : s.limit = lowest s.asked
  asked : ∀ r ∈ s.asked, 1 ≤ r.2
  cooling : s.now < s.heldOffUntil → s.heldOffUntil ∈ s.timers
  grants : ∀ g ∈ s.grants, g.inFlight < g.limit ∧ g.heldOffUntil ≤ g.now

structure SlotsInv (s : Slots) : Prop extends Accounted s where
  urgentOk : QueueOk s.callers true s.urgent
  ordinaryOk : QueueOk s.callers false s.ordinary
  full : s.waiting ≠ 0 → s.limit ≤ s.inFlight ∨ s.heldOffUntil ∈ s.timers

variable {s : Slots} {callers : List Caller} {caller next : Caller} {kind : Bool} {queue : List ℕ}
  {i : ℕ}

/-! ## Callers change one at a time -/

theorem countP_set_caller (h : callers[i]? = some caller) (next : Caller) :
    (callers.set i next).countP Caller.holdsSlot + (if caller.holdsSlot then 1 else 0) =
      callers.countP Caller.holdsSlot + if next.holdsSlot then 1 else 0 := by
  obtain ⟨hi, rfl⟩ := List.getElem?_eq_some_iff.mp h
  have hpos : callers[i].holdsSlot = true → 0 < callers.countP Caller.holdsSlot := fun hholds =>
    List.countP_pos_iff.mpr ⟨_, List.getElem_mem hi, hholds⟩
  rw [List.countP_set hi]
  by_cases hholds : callers[i].holdsSlot = true
  · have := hpos hholds
    simp only [hholds, if_true]
    omega
  · simp only [hholds, Bool.false_eq_true, if_false]
    omega

theorem countP_set_same (h : callers[i]? = some caller) (next : Caller)
    (hsame : next.holdsSlot = caller.holdsSlot) :
    (callers.set i next).countP Caller.holdsSlot = callers.countP Caller.holdsSlot := by
  have hcount := countP_set_caller h next
  rw [hsame] at hcount
  exact Nat.add_right_cancel hcount

/-- A caller that became no waiter is not among those who wait. -/
theorem pending_of_set {j : ℕ} {cancelling : Bool}
    (hnext : ∀ cancelling, next ≠ .waiting kind .pending cancelling)
    (hj : (callers.set i next)[j]? = some (.waiting kind .pending cancelling)) :
    i ≠ j ∧ callers[j]? = some (.waiting kind .pending cancelling) := by
  by_cases hij : i = j
  · subst hij
    obtain ⟨_, hlast⟩ := List.getElem?_eq_some_iff.mp hj
    simp only [List.getElem_set_self] at hlast
    exact absurd hlast (hnext cancelling)
  · rw [List.getElem?_set_ne hij] at hj
    exact ⟨hij, hj⟩

namespace QueueOk

theorem notMem (h : QueueOk callers kind queue) (hcaller : callers[i]? = some caller)
    (hne : ∀ future cancelling, future ≠ .admitted → caller ≠ .waiting kind future cancelling) :
    i ∉ queue := by
  intro hi
  obtain ⟨future, cancelling, hwaiting, hfuture⟩ := h.waiting i hi
  exact hne future cancelling hfuture (Option.some.inj (hcaller.symm.trans hwaiting))

/-- A caller outside the queue may become anything but a waiter of it. -/
theorem set (h : QueueOk callers kind queue) (hi : i ∉ queue)
    (hnext : ∀ cancelling, next ≠ .waiting kind .pending cancelling) :
    QueueOk (callers.set i next) kind queue where
  waiting j hj := by
    have hne : i ≠ j := fun hij => hi (hij ▸ hj)
    rw [List.getElem?_set_ne hne]
    exact h.waiting j hj
  nodup := h.nodup
  pending j cancelling hj := h.pending j cancelling (pending_of_set hnext hj).2

/-- A waiter leaves the queue for good. -/
theorem erase (h : QueueOk callers kind queue)
    (hnext : ∀ cancelling, next ≠ .waiting kind .pending cancelling) :
    QueueOk (callers.set i next) kind (queue.erase i) := by
  refine ⟨?_, h.nodup.erase i, ?_⟩
  · intro j hj
    obtain ⟨hne, hmem⟩ := (h.nodup.mem_erase_iff).mp hj
    rw [List.getElem?_set_ne (Ne.symm hne)]
    exact h.waiting j hmem
  · intro j cancelling hj
    obtain ⟨hij, hwaits⟩ := pending_of_set hnext hj
    exact (h.nodup.mem_erase_iff).mpr ⟨Ne.symm hij, h.pending j cancelling hwaits⟩

theorem push (h : QueueOk callers kind queue) (hi : i < callers.length) (hnew : i ∉ queue) :
    QueueOk (callers.set i (.waiting kind .pending false)) kind (queue ++ [i]) where
  waiting j hj := by
    rcases List.mem_append.mp hj with hj | hj
    · have hne : i ≠ j := fun hij => hnew (hij ▸ hj)
      rw [List.getElem?_set_ne hne]
      exact h.waiting j hj
    · obtain rfl := List.mem_singleton.mp hj
      exact ⟨.pending, false, List.getElem?_set_self hi, by decide⟩
  nodup := Runs.pairwise_concat.mpr ⟨h.nodup, fun j hj hji => hnew (hji ▸ hj)⟩
  pending j cancelling hj := by
    by_cases hij : i = j
    · exact List.mem_append_right _ (hij ▸ List.mem_singleton_self i)
    · rw [List.getElem?_set_ne hij] at hj
      exact List.mem_append_left _ (h.pending j cancelling hj)

/-- Cancelling a waiter leaves it where it is. -/
theorem cancel (h : QueueOk callers kind queue) {future : SlotFuture} {cancelling : Bool}
    (hi : callers[i]? = some (.waiting kind future cancelling)) (again : Bool) :
    QueueOk (callers.set i (.waiting kind .cancelled again)) kind queue where
  waiting j hj := by
    by_cases hij : i = j
    · subst hij
      obtain ⟨hlt, -⟩ := List.getElem?_eq_some_iff.mp hi
      exact ⟨.cancelled, again, List.getElem?_set_self hlt, by decide⟩
    · rw [List.getElem?_set_ne hij]
      exact h.waiting j hj
  nodup := h.nodup
  pending j cancelling' hj := by
    by_cases hij : i = j
    · subst hij
      obtain ⟨_, hlast⟩ := List.getElem?_eq_some_iff.mp hj
      simp at hlast
    · rw [List.getElem?_set_ne hij] at hj
      exact h.pending j cancelling' hj

end QueueOk

/-! ## Granting and admitting -/

/-- What `_admit` leaves alone. -/
structure SameGate (s s' : Slots) : Prop where
  limit : s'.limit = s.limit
  urgent : s'.urgent = s.urgent
  ordinary : s'.ordinary = s.ordinary
  heldOffUntil : s'.heldOffUntil = s.heldOffUntil
  now : s'.now = s.now
  timers : s'.timers = s.timers
  asked : s'.asked = s.asked

theorem holdingOff_pos : 0 < s.holdingOff ↔ s.now < s.heldOffUntil := by
  unfold holdingOff
  omega

/-- A caller without a slot gets one while the gate is open. -/
theorem Accounted.grant (h : Accounted s) (next : Caller) (hcaller : s.callers[i]? = some caller)
    (hfree : caller.holdsSlot = false) (hnext : next.holdsSlot = true)
    (hroom : s.inFlight < s.limit) (hopen : ¬ 0 < s.holdingOff) : Accounted (s.grant i next) where
  count := by
    have hcount := countP_set_caller hcaller next
    simp only [hfree, hnext, Bool.false_eq_true, if_false, if_true, Nat.add_zero] at hcount
    show s.inFlight + 1 = (s.callers.set i next).countP Caller.holdsSlot
    rw [hcount, h.count]
  limit := h.limit
  asked := h.asked
  cooling := h.cooling
  grants := by
    rw [holdingOff_pos, not_lt] at hopen
    refine Runs.forall_mem_concat.mpr ⟨h.grants, ?_, hopen⟩
    show s.inFlight < lowest s.asked
    rw [← h.limit]
    exact hroom

/-- A full gate admits nobody. -/
theorem admitFrom_full (hfull : s.limit ≤ s.inFlight) : s.admitFrom queue = (s, queue) := by
  have hroom : ¬ s.inFlight < s.limit := by omega
  cases queue with
  | nil => rfl
  | cons waiter rest =>
      unfold admitFrom
      rw [if_neg hroom]

/-- The loop of `_admit` over one queue: it stops at the limit or at the end. -/
theorem admitFrom_spec {other : List ℕ} (h : Accounted s) (hqueue : QueueOk s.callers kind queue)
    (hother : QueueOk s.callers (!kind) other) (hopen : ¬ 0 < s.holdingOff) :
    let r := s.admitFrom queue
    Accounted r.1 ∧ QueueOk r.1.callers kind r.2 ∧ QueueOk r.1.callers (!kind) other ∧
      SameGate s r.1 ∧ (r.2 = [] ∨ r.1.limit ≤ r.1.inFlight) := by
  induction queue generalizing s with
  | nil => exact ⟨h, hqueue, hother, ⟨rfl, rfl, rfl, rfl, rfl, rfl, rfl⟩, Or.inl rfl⟩
  | cons waiter rest ih =>
      have hrest : ∀ next : Caller, (∀ c, next ≠ .waiting kind .pending c) →
          QueueOk (s.callers.set waiter next) kind rest := by
        intro next hnext
        have herased := hqueue.erase (i := waiter) hnext
        rwa [List.erase_cons_head] at herased
      obtain ⟨future, cancelling, hwaiter, hfuture⟩ := hqueue.waiting waiter (by simp)
      have houtside : waiter ∉ other := hother.notMem hwaiter (by simp)
      unfold admitFrom
      by_cases hroom : s.inFlight < s.limit
      · rw [if_pos hroom, hwaiter]
        cases future with
        | admitted => exact absurd rfl hfuture
        | pending =>
            have hgrant := h.grant (.waiting kind .admitted cancelling) hwaiter rfl rfl
              hroom hopen
            obtain ⟨haccounted, hthis, hthat, hsame, hend⟩ := ih hgrant (hrest _ (by simp))
              (hother.set houtside (by simp)) hopen
            exact ⟨haccounted, hthis, hthat, ⟨hsame.limit, hsame.urgent, hsame.ordinary,
              hsame.heldOffUntil, hsame.now, hsame.timers, hsame.asked⟩, hend⟩
        | cancelled =>
            have hskip : QueueOk s.callers kind rest := by
              have hkept := hrest (.waiting kind .cancelled cancelling) (by simp)
              obtain ⟨hlt, hget⟩ := List.getElem?_eq_some_iff.mp hwaiter
              rwa [← hget, List.set_getElem_self] at hkept
            exact ih h hskip hother hopen
      · rw [if_neg hroom]
        exact ⟨h, hqueue, hother, ⟨rfl, rfl, rfl, rfl, rfl, rfl, rfl⟩,
          Or.inr (show s.limit ≤ s.inFlight by omega)⟩

theorem admitWaiters_inv (h : Accounted s) (hurgent : QueueOk s.callers true s.urgent)
    (hordinary : QueueOk s.callers false s.ordinary) : SlotsInv s.admitWaiters := by
  unfold admitWaiters
  by_cases hheld : 0 < s.holdingOff
  · rw [if_pos hheld]
    exact
      { h with
        urgentOk := hurgent
        ordinaryOk := hordinary
        full := fun _ => Or.inr (h.cooling (holdingOff_pos.mp hheld)) }
  · rw [if_neg hheld]
    obtain ⟨h₁, hurgent₁, hordinary₁, hsame₁, hend₁⟩ :=
      admitFrom_spec h hurgent hordinary hheld
    have hheld₁ : ¬ 0 < (s.admitFrom s.urgent).1.holdingOff := by
      rw [holdingOff_pos] at hheld ⊢
      rwa [hsame₁.now, hsame₁.heldOffUntil]
    rw [← hsame₁.ordinary] at hordinary₁
    obtain ⟨h₂, hordinary₂, hurgent₂, hsame₂, hend₂⟩ :=
      admitFrom_spec h₁ hordinary₁ hurgent₁ hheld₁
    refine
      { count := h₂.count
        limit := h₂.limit
        asked := h₂.asked
        cooling := h₂.cooling
        grants := h₂.grants
        urgentOk := hurgent₂
        ordinaryOk := hordinary₂
        full := ?_ }
    intro hwaiting
    rcases hend₂ with hempty | hfull
    · rcases hend₁ with hempty₁ | hfull₁
      · exact absurd hwaiting (by simp [waiting, hempty, hempty₁])
      · -- the urgent queue stopped at the limit, so the second loop did not begin
        left
        show Slots.limit (admitFrom _ _).1 ≤ Slots.inFlight (admitFrom _ _).1
        rw [admitFrom_full hfull₁]
        exact hfull₁
    · exact Or.inl hfull

/-! ## The operations -/

theorem one_le_lowest {asked : List (String × ℕ)} (h : ∀ r ∈ asked, 1 ≤ r.2) :
    1 ≤ lowest asked := by
  unfold lowest
  cases hmin : (asked.map Prod.snd).min? with
  | none => decide
  | some limit =>
      obtain ⟨r, hr, hlimit⟩ := List.mem_map.mp (List.min?_mem hmin)
      rw [Option.getD_some, ← hlimit]
      exact h r hr

/-- New requests, and the limit moved to what they come to. -/
theorem SlotsInv.resize (h : SlotsInv s) {asked : List (String × ℕ)}
    (hasked : ∀ r ∈ asked, 1 ≤ r.2) :
    SlotsInv (({ s with asked := asked } : Slots).resize (lowest asked)) := by
  unfold Slots.resize
  have hmax : max 1 (lowest asked) = lowest asked :=
    Nat.max_eq_right (one_le_lowest hasked)
  simp only [hmax]
  split
  · rename_i hsame
    exact { h with limit := hsame.symm, asked := hasked }
  · exact admitWaiters_inv { h.toAccounted with limit := rfl, asked := hasked } h.urgentOk
      h.ordinaryOk

/-- A caller with a slot is in no queue. -/
theorem SlotsInv.notMem_of_holds (h : SlotsInv s) (hcaller : s.callers[i]? = some caller)
    (hholds : caller.holdsSlot = true) : i ∉ s.urgent ∧ i ∉ s.ordinary := by
  have hne : ∀ kind future cancelling, future ≠ .admitted →
      caller ≠ .waiting kind future cancelling := by
    rintro kind future cancelling hfuture rfl
    cases future <;> simp_all [Caller.holdsSlot]
  exact ⟨h.urgentOk.notMem hcaller (hne true), h.ordinaryOk.notMem hcaller (hne false)⟩

/-- The gate once a caller with a slot has left, before `_admit`. -/
theorem SlotsInv.leaveBlock (h : SlotsInv s) (hcaller : s.callers[i]? = some caller)
    (hholds : caller.holdsSlot = true) :
    Accounted { s with inFlight := s.inFlight - 1, callers := s.callers.set i .gone } ∧
      QueueOk (s.callers.set i .gone) true s.urgent ∧
      QueueOk (s.callers.set i .gone) false s.ordinary := by
  obtain ⟨hurgent, hordinary⟩ := h.notMem_of_holds hcaller hholds
  refine ⟨{ h.toAccounted with count := ?_ }, h.urgentOk.set hurgent (by simp),
    h.ordinaryOk.set hordinary (by simp)⟩
  have hcount := countP_set_caller hcaller .gone
  have hgone : Caller.gone.holdsSlot = false := rfl
  simp only [hholds, hgone, if_true, Bool.false_eq_true, if_false, Nat.add_zero] at hcount
  show s.inFlight - 1 = (s.callers.set i .gone).countP Caller.holdsSlot
  rw [h.count, ← hcount]
  exact Nat.add_sub_cancel ..

/-- A caller with a slot leaves, and the slot goes to whoever is first in line. -/
theorem SlotsInv.handOn (h : SlotsInv s) (hcaller : s.callers[i]? = some caller)
    (hholds : caller.holdsSlot = true) : SlotsInv (s.handOn i) := by
  obtain ⟨haccounted, hurgent, hordinary⟩ := h.leaveBlock hcaller hholds
  exact admitWaiters_inv haccounted hurgent hordinary

/-- A caller that holds nothing and waits for nothing changes without anybody noticing. -/
theorem SlotsInv.set (h : SlotsInv s) (hcaller : s.callers[i]? = some caller)
    (hsame : next.holdsSlot = caller.holdsSlot)
    (hold : ∀ kind future cancelling, future ≠ .admitted →
      caller ≠ .waiting kind future cancelling)
    (hnext : ∀ kind cancelling, next ≠ .waiting kind .pending cancelling) :
    SlotsInv { s with callers := s.callers.set i next } :=
  { h with
    count := h.count.trans (countP_set_same hcaller next hsame).symm
    urgentOk := h.urgentOk.set (h.urgentOk.notMem hcaller (hold true)) (hnext true)
    ordinaryOk := h.ordinaryOk.set (h.ordinaryOk.notMem hcaller (hold false)) (hnext false) }

theorem SlotsInv.attempt (h : SlotsInv s) {slept : Bool}
    (hcaller : s.callers[i]? = some (.sleeping slept)) (urgent : Bool) :
    SlotsInv (s.attempt i urgent) := by
  have hlt : i < s.callers.length := (List.getElem?_eq_some_iff.mp hcaller).1
  have hnotUrgent : i ∉ s.urgent := h.urgentOk.notMem hcaller (by simp)
  have hnotOrdinary : i ∉ s.ordinary := h.ordinaryOk.notMem hcaller (by simp)
  unfold Slots.attempt
  split
  · exact h.set hcaller rfl (by simp) (by simp)
  rename_i hopen
  split
  · rename_i hroom
    have hgrant := h.toAccounted.grant .holding hcaller rfl rfl hroom.2 hopen
    exact
      { hgrant with
        urgentOk := h.urgentOk.set hnotUrgent (by simp)
        ordinaryOk := h.ordinaryOk.set hnotOrdinary (by simp)
        full := fun hwaiting => absurd hroom.1 hwaiting }
  · rename_i hroom
    have hcount : s.inFlight =
        (s.callers.set i (.waiting urgent .pending false)).countP Caller.holdsSlot :=
      h.count.trans (countP_set_same hcaller (.waiting urgent .pending false) rfl).symm
    -- a caller that has to queue finds somebody ahead of it or no slot
    have hfull : s.limit ≤ s.inFlight ∨ s.heldOffUntil ∈ s.timers := by
      by_cases hwaiting : s.waiting = 0
      · exact Or.inl (by omega)
      · exact h.full hwaiting
    cases urgent with
    | true =>
        exact
          { h with
            count := hcount
            urgentOk := h.urgentOk.push hlt hnotUrgent
            ordinaryOk := h.ordinaryOk.set hnotOrdinary (by simp)
            full := fun _ => hfull }
    | false =>
        exact
          { h with
            count := hcount
            urgentOk := h.urgentOk.set hnotUrgent (by simp)
            ordinaryOk := h.ordinaryOk.push hlt hnotOrdinary
            full := fun _ => hfull }

theorem QueueOk.concat (h : QueueOk callers kind queue) (urgent : Bool) :
    QueueOk (callers ++ [.sleeping urgent]) kind queue where
  waiting j hj := by
    obtain ⟨future, cancelling, hwaiting, hfuture⟩ := h.waiting j hj
    obtain ⟨hlt, -⟩ := List.getElem?_eq_some_iff.mp hwaiting
    exact ⟨future, cancelling, by rw [List.getElem?_append_left hlt, hwaiting], hfuture⟩
  nodup := h.nodup
  pending j cancelling hj := by
    rw [List.getElem?_append] at hj
    split at hj
    · exact h.pending j cancelling hj
    · have hmem := List.mem_of_getElem? hj
      simp at hmem

/-- A waiter whose future was cancelled resumes. -/
theorem SlotsInv.leave (h : SlotsInv s) {urgent cancelling : Bool}
    (hcaller : s.callers[i]? = some (.waiting urgent .cancelled cancelling)) :
    SlotsInv (s.step (.resume i)) := by
  have hcount : s.inFlight = (s.callers.set i .gone).countP Caller.holdsSlot :=
    h.count.trans (countP_set_same hcaller .gone rfl).symm
  simp only [step, hcaller]
  cases urgent with
  | true =>
      exact
        { h with
          count := hcount
          urgentOk := h.urgentOk.erase (by simp)
          ordinaryOk := h.ordinaryOk.set (h.ordinaryOk.notMem hcaller (by simp)) (by simp)
          full := by
            intro hwaiting
            refine h.full fun hnone => hwaiting ?_
            simp only [waiting, Nat.add_eq_zero_iff, List.length_eq_zero_iff] at hnone ⊢
            exact ⟨by rw [hnone.1]; rfl, hnone.2⟩ }
  | false =>
      exact
        { h with
          count := hcount
          urgentOk := h.urgentOk.set (h.urgentOk.notMem hcaller (by simp)) (by simp)
          ordinaryOk := h.ordinaryOk.erase (by simp)
          full := by
            intro hwaiting
            refine h.full fun hnone => hwaiting ?_
            simp only [waiting, Nat.add_eq_zero_iff, List.length_eq_zero_iff] at hnone ⊢
            exact ⟨hnone.1, by rw [hnone.2]; rfl⟩ }

/-- Asking for a cancellation leaves a waiter in its queue. -/
theorem SlotsInv.cancelWaiting (h : SlotsInv s) {urgent cancelling : Bool} {future : SlotFuture}
    (hcaller : s.callers[i]? = some (.waiting urgent future cancelling))
    (hfuture : future ≠ .admitted) (again : Bool) :
    SlotsInv { s with callers := s.callers.set i (.waiting urgent .cancelled again) } := by
  have hsame : (Caller.waiting urgent .cancelled again).holdsSlot =
      (Caller.waiting urgent future cancelling).holdsSlot := by
    cases future with
    | pending => rfl
    | admitted => exact absurd rfl hfuture
    | cancelled => rfl
  have hcount := h.count.trans (countP_set_same hcaller _ hsame).symm
  have houtside : i ∉ if urgent then s.ordinary else s.urgent := by
    cases urgent with
    | true => exact h.ordinaryOk.notMem hcaller (by simp)
    | false => exact h.urgentOk.notMem hcaller (by simp)
  cases urgent with
  | true =>
      exact
        { h with
          count := hcount
          urgentOk := h.urgentOk.cancel hcaller again
          ordinaryOk := h.ordinaryOk.set houtside (by simp) }
  | false =>
      exact
        { h with
          count := hcount
          urgentOk := h.urgentOk.set houtside (by simp)
          ordinaryOk := h.ordinaryOk.cancel hcaller again }

theorem SlotsInv.withCaller (h : SlotsInv s) (urgent : Bool) :
    SlotsInv { s with callers := s.callers ++ [.sleeping urgent] } :=
  { h with
    count := by
      rw [h.count, List.countP_append]
      rfl
    urgentOk := h.urgentOk.concat urgent
    ordinaryOk := h.ordinaryOk.concat urgent }

theorem SlotsInv.holdOff (h : SlotsInv s) (seconds : ℤ) : SlotsInv (s.step (.holdOff seconds)) := by
  simp only [Slots.step]
  split
  · have htimer : s.now + seconds ∈ s.timers ++ [s.now + seconds] :=
      List.mem_append_right _ (List.mem_singleton_self _)
    refine { h with cooling := fun _ => htimer, grants := ?_, full := fun _ => Or.inr htimer }
    exact h.grants
  · exact h

/-- The timer of a hold-off that still runs is set again; any other admits whom it can. -/
theorem SlotsInv.fire (h : SlotsInv s) (timer : ℕ) : SlotsInv (s.step (.fire timer)) := by
  simp only [Slots.step]
  split
  · let woken : Slots := { s with timers := s.timers.eraseIdx timer }
    show SlotsInv (if 0 < woken.holdingOff then woken.resumeLater woken.holdingOff
      else woken.admitWaiters)
    by_cases hheld : 0 < woken.holdingOff
    · rw [if_pos hheld]
      have hlt : s.now < s.heldOffUntil := holdingOff_pos.mp hheld
      have hdue : woken.now + woken.holdingOff = s.heldOffUntil := by
        show s.now + max 0 (s.heldOffUntil - s.now) = s.heldOffUntil
        omega
      have htimer : s.heldOffUntil ∈ woken.timers ++ [woken.now + woken.holdingOff] := by
        rw [hdue]
        exact List.mem_append_right _ (List.mem_singleton_self _)
      exact { h with cooling := fun _ => htimer, full := fun _ => Or.inr htimer }
    · rw [if_neg hheld]
      have hcooling : s.now < s.heldOffUntil → s.heldOffUntil ∈ woken.timers := fun hlt =>
        absurd (holdingOff_pos.mpr hlt) hheld
      exact admitWaiters_inv { h.toAccounted with cooling := hcooling } h.urgentOk h.ordinaryOk
  · exact h

theorem SlotsInv.step (h : SlotsInv s) (a : SlotsAct) : SlotsInv (s.step a) := by
  cases a with
  | register address limit =>
      refine h.resize fun r hr => ?_
      rcases List.mem_append.mp hr with hr | hr
      · exact h.asked r (List.mem_of_mem_filter hr)
      · obtain rfl := List.mem_singleton.mp hr
        show 1 ≤ (max 1 limit).toNat
        omega
  | withdraw address =>
      simp only [Slots.step]
      split
      · exact h.resize fun r hr => h.asked r (List.mem_of_mem_filter hr)
      · exact h
  | acquire urgent =>
      have hlast : (s.callers ++ [.sleeping urgent])[s.callers.length]? = some (.sleeping urgent) :=
        List.getElem?_concat_length
      exact (h.withCaller urgent).attempt hlast urgent
  | resume i =>
      cases hcaller : s.callers[i]? with
      | none => simpa only [Slots.step, hcaller] using h
      | some caller =>
          cases caller with
          | sleeping urgent =>
              simp only [Slots.step, hcaller]
              exact h.attempt hcaller urgent
          | waiting urgent future cancelling =>
              cases future with
              | pending => simpa only [Slots.step, hcaller] using h
              | admitted =>
                  cases cancelling with
                  | false =>
                      simp only [Slots.step, hcaller]
                      exact h.set hcaller rfl (by simp; tauto) (by simp)
                  | true =>
                      simp only [Slots.step, hcaller]
                      -- admitted and cancelled: the slot is handed on before the task
                      -- ends
                      exact h.handOn hcaller rfl
              | cancelled => exact h.leave hcaller
          | holding => simpa only [Slots.step, hcaller] using h
          | gone => simpa only [Slots.step, hcaller] using h
  | release i =>
      simp only [Slots.step]
      split
      · rename_i hcaller
        exact h.handOn hcaller rfl
      · exact h
  | cancel i =>
      simp only [Slots.step]
      split
      · rename_i hcaller
        exact h.set hcaller rfl (by simp) (by simp)
      · rename_i hcaller
        exact h.cancelWaiting hcaller (by decide) _
      · rename_i urgent future cancelling hpending hcaller
        cases future with
        | pending => exact absurd rfl hpending
        | admitted => exact h.set hcaller rfl (by simp; tauto) (by simp)
        | cancelled => exact h.cancelWaiting hcaller (by decide) true
      · rename_i hcaller
        exact h.handOn hcaller rfl
      · exact h
  | holdOff seconds => exact h.holdOff seconds
  | pass seconds =>
      have hcooling : s.now + seconds < s.heldOffUntil → s.heldOffUntil ∈ s.timers := fun hlt =>
        h.cooling (by omega)
      exact { h with cooling := hcooling }
  | fire timer => exact h.fire timer

theorem slotsInv_start (now : ℕ) : SlotsInv (start now) where
  count := rfl
  limit := rfl
  asked := by simp [start]
  cooling hlt := absurd hlt (by simp [start])
  grants := by simp [start]
  urgentOk := ⟨by simp [start], by simp [start], by simp [start]⟩
  ordinaryOk := ⟨by simp [start], by simp [start], by simp [start]⟩
  full := by simp [start, waiting]

theorem slotsInv_run (now : ℕ) (acts : List SlotsAct) :
    SlotsInv (Runs.run step (start now) acts) :=
  Runs.run_invariant (P := fun _ _ => True) (fun _ a h _ => h.step a) (slotsInv_start now)
    (Runs.Along.of_forall (R := fun _ => True) (fun _ _ => trivial))

/-! ## The other callers -/

/-- Nothing happens to a caller that does not step, except that it may be admitted. -/
def StillOrAdmitted (callers callers' : List Caller) (j : ℕ) : Prop :=
  callers'[j]? = callers[j]? ∨ ∃ urgent cancelling,
    callers[j]? = some (.waiting urgent .pending cancelling) ∧
      callers'[j]? = some (.waiting urgent .admitted cancelling)

/-- A step of the gate for the caller `i` alone. -/
structure StepOf (i : ℕ) (s s' : Slots) : Prop where
  length : s'.callers.length = s.callers.length
  others : ∀ j, j ≠ i → StillOrAdmitted s.callers s'.callers j

theorem StillOrAdmitted.trans {callers callers' callers'' : List Caller} {j : ℕ}
    (h : StillOrAdmitted callers callers' j) (h' : StillOrAdmitted callers' callers'' j) :
    StillOrAdmitted callers callers'' j := by
  rcases h with h | ⟨urgent, cancelling, hpending, hadmitted⟩
  · rcases h' with h' | ⟨urgent, cancelling, hpending', hadmitted'⟩
    · exact Or.inl (h'.trans h)
    · exact Or.inr ⟨urgent, cancelling, h ▸ hpending', hadmitted'⟩
  · rcases h' with h' | ⟨urgent', cancelling', hpending', -⟩
    · exact Or.inr ⟨urgent, cancelling, hpending, h'.trans hadmitted⟩
    · rw [hadmitted] at hpending'
      simp at hpending'

theorem StillOrAdmitted.set {callers : List Caller} {i j : ℕ} (hne : j ≠ i) (next : Caller) :
    StillOrAdmitted callers (callers.set i next) j :=
  Or.inl (List.getElem?_set_ne (Ne.symm hne))

theorem admitFrom_others (s : Slots) (queue : List ℕ) (j : ℕ) :
    (s.admitFrom queue).1.callers.length = s.callers.length ∧
      StillOrAdmitted s.callers (s.admitFrom queue).1.callers j := by
  induction queue generalizing s with
  | nil => exact ⟨rfl, Or.inl rfl⟩
  | cons waiter rest ih =>
      unfold admitFrom
      by_cases hroom : s.inFlight < s.limit
      · rw [if_pos hroom]
        split
        · rename_i urgent cancelling hwaiter
          obtain ⟨hlength, hothers⟩ := ih (s.grant waiter (.waiting urgent .admitted cancelling))
          refine ⟨hlength.trans List.length_set, StillOrAdmitted.trans ?_ hothers⟩
          by_cases hj : j = waiter
          · subst hj
            obtain ⟨hlt, -⟩ := List.getElem?_eq_some_iff.mp hwaiter
            exact Or.inr ⟨urgent, cancelling, hwaiter, List.getElem?_set_self hlt⟩
          · exact StillOrAdmitted.set hj _
        · exact ih s
      · rw [if_neg hroom]
        exact ⟨rfl, Or.inl rfl⟩

theorem admitWaiters_others (s : Slots) (j : ℕ) :
    s.admitWaiters.callers.length = s.callers.length ∧
      StillOrAdmitted s.callers s.admitWaiters.callers j := by
  unfold admitWaiters
  split
  · exact ⟨rfl, Or.inl rfl⟩
  · obtain ⟨hlength, hothers⟩ := admitFrom_others s s.urgent j
    obtain ⟨hlength', hothers'⟩ :=
      admitFrom_others (s.admitFrom s.urgent).1 (s.admitFrom s.urgent).1.ordinary j
    exact ⟨hlength'.trans hlength, hothers.trans hothers'⟩

theorem resize_others (s : Slots) (limit j : ℕ) :
    (s.resize limit).callers.length = s.callers.length ∧
      StillOrAdmitted s.callers (s.resize limit).callers j := by
  simp only [resize]
  split
  · exact ⟨rfl, Or.inl rfl⟩
  · exact admitWaiters_others { s with limit := max 1 limit } j

/-- Requests and the clock move no caller by themselves. -/
theorem step_others (s : Slots) {a : SlotsAct}
    (ha : (∃ address limit, a = .register address limit) ∨ (∃ address, a = .withdraw address) ∨
      (∃ seconds, a = .holdOff seconds) ∨ (∃ seconds, a = .pass seconds) ∨
      ∃ timer, a = .fire timer) (j : ℕ) :
    (s.step a).callers.length = s.callers.length ∧
      StillOrAdmitted s.callers (s.step a).callers j := by
  obtain ⟨address, limit, rfl⟩ | ⟨address, rfl⟩ | ⟨seconds, rfl⟩ | ⟨seconds, rfl⟩ | ⟨timer, rfl⟩ :=
    ha
  · exact resize_others _ _ j
  · simp only [step]
    split
    · exact resize_others _ _ j
    · exact ⟨rfl, Or.inl rfl⟩
  · simp only [step]
    split <;> exact ⟨rfl, Or.inl rfl⟩
  · exact ⟨rfl, Or.inl rfl⟩
  · simp only [step]
    split
    · split
      · exact ⟨rfl, Or.inl rfl⟩
      · exact admitWaiters_others { s with timers := s.timers.eraseIdx timer } j
    · exact ⟨rfl, Or.inl rfl⟩

theorem attempt_callers (s : Slots) (i : ℕ) (urgent : Bool) :
    ∃ next, (s.attempt i urgent).callers = s.callers.set i next ∧ next ≠ .gone := by
  unfold attempt
  split
  · exact ⟨_, rfl, by simp⟩
  · split
    · exact ⟨_, rfl, by simp⟩
    · cases urgent with
      | true => exact ⟨_, rfl, by simp⟩
      | false => exact ⟨_, rfl, by simp⟩

theorem step_acquire_callers (s : Slots) (urgent : Bool) :
    ∃ next, (s.step (.acquire urgent)).callers = s.callers ++ [next] ∧ next ≠ .gone := by
  obtain ⟨next, hcallers, hnext⟩ := attempt_callers
    { s with callers := s.callers ++ [.sleeping urgent] } s.callers.length urgent
  refine ⟨next, hcallers.trans ?_, hnext⟩
  rw [List.set_append_right _ _ (Nat.le_refl _), Nat.sub_self]
  rfl

theorem stepOf_set (s : Slots) (i : ℕ) (next : Caller) {s' : Slots}
    (h : s'.callers = s.callers.set i next) : StepOf i s s' where
  length := by rw [h, List.length_set]
  others j hj := by
    rw [h]
    exact StillOrAdmitted.set hj next

theorem handOn_stepOf (s : Slots) (i : ℕ) : StepOf i s (s.handOn i) where
  length := (admitWaiters_others _ i).1.trans List.length_set
  others j hj :=
    (StillOrAdmitted.set hj .gone).trans
      (admitWaiters_others
        { s with inFlight := s.inFlight - 1, callers := s.callers.set i .gone } j).2

/-- Whoever hands a slot on is out of the gate. -/
theorem handOn_self (s : Slots) {i : ℕ} (hi : i < s.callers.length) :
    (s.handOn i).callers[i]? = some .gone := by
  have hset : (s.callers.set i .gone)[i]? = some Caller.gone := List.getElem?_set_self hi
  obtain hstill | ⟨urgent, cancelling, hpending, -⟩ :=
    (admitWaiters_others
      { s with inFlight := s.inFlight - 1, callers := s.callers.set i .gone } i).2
  · exact hstill.trans hset
  · simp [hset] at hpending

theorem stepOf_refl (s : Slots) (i : ℕ) : StepOf i s s := ⟨rfl, fun _ _ => Or.inl rfl⟩

theorem step_resume_stepOf (s : Slots) (i : ℕ) : StepOf i s (s.step (.resume i)) := by
  simp only [step]
  split
  · obtain ⟨next, hcallers, -⟩ := attempt_callers s i ‹Bool›
    exact stepOf_set s i next hcallers
  · exact stepOf_set s i .holding rfl
  · exact handOn_stepOf s i
  · split <;> exact stepOf_set s i .gone rfl
  · exact stepOf_refl s i

theorem step_cancel_stepOf (s : Slots) (i : ℕ) : StepOf i s (s.step (.cancel i)) := by
  simp only [step]
  split
  · exact stepOf_set s i _ rfl
  · exact stepOf_set s i _ rfl
  · exact stepOf_set s i _ rfl
  · exact handOn_stepOf s i
  · exact stepOf_refl s i

theorem step_release_holding {s : Slots} {i : ℕ} (h : s.callers[i]? = some .holding) :
    StepOf i s (s.step (.release i)) ∧ (s.step (.release i)).callers[i]? = some .gone := by
  obtain ⟨hlt, -⟩ := List.getElem?_eq_some_iff.mp h
  simp only [step, h]
  exact ⟨handOn_stepOf s i, handOn_self s hlt⟩

/-! ## The gate over whole runs -/

/-- What the gate promises: every slot is counted once, none was granted past the limit or
during a hold-off, and nobody waits for a slot that nothing will bring. -/
structure GateKept (s : Slots) : Prop where
  counted : s.inFlight = s.callers.countP Caller.holdsSlot
  granted : ∀ g ∈ s.grants, g.inFlight < g.limit ∧ g.heldOffUntil ≤ g.now
  inForce : s.limit = lowest s.asked
  waiters : ∀ (i : ℕ) (urgent cancelling : Bool),
    s.callers[i]? = some (.waiting urgent .pending cancelling) →
      i ∈ (if urgent then s.urgent else s.ordinary) ∧
        (s.limit ≤ s.inFlight ∨ s.heldOffUntil ∈ s.timers)

theorem SlotsInv.waiting_ne_zero (h : SlotsInv s) {urgent cancelling : Bool}
    (hcaller : s.callers[i]? = some (.waiting urgent .pending cancelling)) : s.waiting ≠ 0 := by
  unfold waiting
  cases urgent with
  | true =>
      have := List.length_pos_of_mem (h.urgentOk.pending i cancelling hcaller)
      omega
  | false =>
      have := List.length_pos_of_mem (h.ordinaryOk.pending i cancelling hcaller)
      omega

theorem SlotsInv.gateKept (h : SlotsInv s) : GateKept s where
  counted := h.count
  granted := h.grants
  inForce := h.limit
  waiters i urgent cancelling hcaller := by
    refine ⟨?_, h.full (h.waiting_ne_zero hcaller)⟩
    cases urgent with
    | true => exact h.urgentOk.pending i cancelling hcaller
    | false => exact h.ordinaryOk.pending i cancelling hcaller

/-- The gate keeps its promise in every run. -/
theorem gate_kept (now : ℕ) (acts : List SlotsAct) :
    GateKept (Runs.run step (start now) acts) := by
  apply SlotsInv.gateKept
  exact slotsInv_run now acts

/-- A waiter that is admitted and cancelled before it resumes hands its slot to the next. -/
example :
    (Runs.run step (start 0)
      [.register "A" 1, .acquire false, .acquire true, .acquire false, .release 0, .cancel 1,
        .resume 1]).callers = [.gone, .gone, .waiting false .admitted false] := by decide

end BTHomeWritable.Receiver.Slots
