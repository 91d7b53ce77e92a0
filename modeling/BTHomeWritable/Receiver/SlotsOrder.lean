import BTHomeWritable.Receiver.SlotsInv

/-!
# Who gets a slot first

A caller waits from its call of `acquire` on, whether it sleeps out a hold-off
or is queued for a slot.  The two queues keep commands ahead of housekeeping and
each class in order, but a sleeper is in neither: where a slot is granted, or a
place in a queue taken, while somebody who goes before is still asleep, that
one is overtaken.  Where this never happens every slot goes to the caller whose
turn it is.

* `InTurn` says it of one grant, and `CommandsFirst` of a gate with its grants.
* `OvertakesNone` is the condition on a step: nobody asleep goes before the one who
  joins a queue, enters, or is admitted.
* `Ordered` is the invariant.  Of each class there are those given a slot, then the
  queue, then the sleepers, in the order of their calls.  `Ordered.grant` and
  `Ordered.push` are the two moves; what grants or queues nobody is
  `Ordered.calm`.
* `InOrder` is `Ordered` with `SlotsInv`, and `InOrder.step` the step.

`commands_first` is the run, and `sleeping_command_overtaken` one in which a
command that sleeps is overtaken by housekeeping.
-/

namespace BTHomeWritable.Receiver

/-- The class of a caller that is not in the block yet. -/
def Caller.kind : Caller → Option Bool
  | .sleeping urgent => some urgent
  | .waiting urgent _ _ => some urgent
  | _ => none

def Grant.kind (g : Grant) : Option Bool := g.callers[g.caller]?.bind Caller.kind

namespace Slots

def Asleep (callers : List Caller) (kind : Bool) (i : ℕ) : Prop :=
  callers[i]? = some (.sleeping kind)

/-- Caller `i` has asked for a slot, and was neither given one nor cancelled. -/
def Waits (callers : List Caller) (kind : Bool) (i : ℕ) : Prop :=
  Asleep callers kind i ∨ ∃ cancelling, callers[i]? = some (.waiting kind .pending cancelling)

/-- A slot for the caller whose turn it was: no command waits while housekeeping gets one, and
nobody of the same class who asked earlier. -/
structure InTurn (g : Grant) : Prop where
  commands : g.kind = some false → ∀ i, ¬ Waits g.callers true i
  arrival : ∀ kind, g.kind = some kind → ∀ i < g.caller, ¬ Waits g.callers kind i

/-- The callers of a class that were given slots, in the order they were given them. -/
def servedOf (grants : List Grant) (kind : Bool) : List ℕ :=
  (grants.filter fun g => g.kind = some kind).map Grant.caller

/-- Commands first, and each class in the order of its calls of `acquire`. -/
structure CommandsFirst (s : Slots) : Prop where
  inTurn : ∀ g ∈ s.grants, InTurn g
  sorted : ∀ kind, (servedOf s.grants kind).Pairwise (· < ·)

/-! ## Nobody overtakes a sleeper -/

/-- Waiters of a queue whose future is not done. -/
def pendingCount (s : Slots) (queue : List ℕ) : ℕ :=
  queue.countP fun i =>
    match s.callers[i]? with
    | some (.waiting _ .pending _) => true
    | _ => false

/-- Who goes through `acquire` from the head of its `while` in this step, and as what. -/
def passing (s : Slots) : SlotsAct → Option (ℕ × Bool)
  | .acquire urgent => some (s.callers.length, urgent)
  | .resume i =>
      match s.callers[i]? with
      | some (.sleeping urgent) => some (i, urgent)
      | _ => none
  | _ => none

/-- The free slots after a move of the limit, where it moves. -/
def moved (s : Slots) (limit : ℕ) : Option ℕ :=
  if max 1 limit = s.limit then none else some (max 1 limit - s.inFlight)

/-- The free slots that `_admit` finds where this step runs it. -/
def freed (s : Slots) : SlotsAct → Option ℕ
  | .register address limit =>
      s.moved (lowest (s.asked.filter (·.1 ≠ address) ++ [(address, (max 1 limit).toNat)]))
  | .withdraw address =>
      if s.asked.any (·.1 = address) then s.moved (lowest (s.asked.filter (·.1 ≠ address)))
      else none
  | .resume i =>
      match s.callers[i]? with
      | some (.waiting _ .admitted true) => some (s.limit - (s.inFlight - 1))
      | _ => none
  | .release i | .cancel i =>
      match s.callers[i]? with
      | some .holding => some (s.limit - (s.inFlight - 1))
      | _ => none
  | .fire timer => if timer < s.timers.length then some (s.limit - s.inFlight) else none
  | _ => none

/-- `_admit` with so many free slots has none left over for housekeeping while a command
sleeps. -/
def LeavesAsleep (s : Slots) (room : ℕ) : Prop :=
  s.pendingCount s.urgent < room → 0 < s.pendingCount s.ordinary → ∀ i, ¬ Asleep s.callers true i

/-- The step overtakes nobody who is asleep. -/
structure OvertakesNone (s : Slots) (a : SlotsAct) : Prop where
  joins : ∀ i kind, s.passing a = some (i, kind) → ∀ j < i, ¬ Asleep s.callers kind j
  enters : ∀ i, s.passing a = some (i, false) → s.waiting = 0 → s.inFlight < s.limit →
    ∀ j, ¬ Asleep s.callers true j
  admits : ∀ room, s.freed a = some room → s.LeavesAsleep room

/-! ## The order is kept -/

/-- The callers of each class in order: those given a slot, then the queue, then the sleepers. -/
structure Ordered (callers : List Caller) (grants : List Grant) (queue : Bool → List ℕ) : Prop where
  queued : ∀ kind, (queue kind).Pairwise (· < ·)
  asleep : ∀ kind, ∀ q ∈ queue kind, ∀ i, Asleep callers kind i → q < i
  servedQueue : ∀ g ∈ grants, ∀ kind, g.kind = some kind → ∀ q ∈ queue kind, g.caller < q
  servedAsleep : ∀ g ∈ grants, ∀ kind, g.kind = some kind →
    ∀ i, Asleep callers kind i → g.caller < i
  bound : ∀ g ∈ grants, g.caller < callers.length
  inTurn : ∀ g ∈ grants, InTurn g
  sorted : ∀ kind, (servedOf grants kind).Pairwise (· < ·)

variable {s : Slots} {callers callers' : List Caller} {grants : List Grant} {caller next : Caller}
  {kind : Bool} {queue queue' : Bool → List ℕ} {i : ℕ}

/-- Callers change and leave the queues, and nobody falls asleep. -/
theorem Ordered.calm (h : Ordered callers grants queue)
    (hsleep : ∀ kind i, Asleep callers' kind i → Asleep callers kind i)
    (hlength : callers.length ≤ callers'.length)
    (hqueue : ∀ kind, (queue' kind).Sublist (queue kind)) : Ordered callers' grants queue' where
  queued kind := (h.queued kind).sublist (hqueue kind)
  asleep kind q hq i hi := h.asleep kind q ((hqueue kind).subset hq) i (hsleep kind i hi)
  servedQueue g hg kind hkind q hq := h.servedQueue g hg kind hkind q ((hqueue kind).subset hq)
  servedAsleep g hg kind hkind i hi := h.servedAsleep g hg kind hkind i (hsleep kind i hi)
  bound g hg := Nat.lt_of_lt_of_le (h.bound g hg) hlength
  inTurn := h.inTurn
  sorted := h.sorted

/-- A caller that does not fall asleep. -/
theorem asleep_of_set {j : ℕ} {kind' : Bool} (hnext : ∀ kind, next ≠ .sleeping kind)
    (hj : Asleep (callers.set i next) kind' j) : i ≠ j ∧ Asleep callers kind' j := by
  by_cases hij : i = j
  · subst hij
    obtain ⟨_, hlast⟩ := List.getElem?_eq_some_iff.mp hj
    simp only [List.getElem_set_self] at hlast
    exact absurd hlast (hnext kind')
  · rw [Asleep, List.getElem?_set_ne hij] at hj
    exact ⟨hij, hj⟩

theorem servedOf_concat (g : Grant) (kind : Bool) :
    servedOf (grants ++ [g]) kind =
      servedOf grants kind ++ if g.kind = some kind then [g.caller] else [] := by
  rw [servedOf, List.filter_append, List.map_append, servedOf]
  congr 1
  by_cases hkind : g.kind = some kind
  · simp [hkind]
  · simp [hkind]

/-- A slot for `i`, the first of its class, while no command waits if it is housekeeping. -/
theorem Ordered.grant (h : Ordered callers grants queue) (hcaller : callers[i]? = some caller)
    (hkind : caller.kind = some kind) (hnext : ∀ kind, next ≠ .sleeping kind)
    (hserved : ∀ g ∈ grants, g.kind = some kind → g.caller < i)
    (hfirst : ∀ q ∈ queue kind, i < q)
    (hasleep : ∀ j, i ≠ j → Asleep callers kind j → i < j)
    (harrival : ∀ j < i, ¬ Waits callers kind j)
    (hcommands : kind = false → ∀ j, ¬ Waits callers true j)
    (inFlight limit : ℕ) (now heldOffUntil : ℤ) :
    Ordered (callers.set i next)
      (grants ++ [⟨inFlight, limit, now, heldOffUntil, i, callers⟩]) queue := by
  have hlt : i < callers.length := (List.getElem?_eq_some_iff.mp hcaller).1
  -- the record of the grant is of class `kind`
  have hgrant : ∀ kind', (⟨inFlight, limit, now, heldOffUntil, i, callers⟩ : Grant).kind =
      some kind' → kind' = kind := by
    intro kind' h'
    have hsame : (⟨inFlight, limit, now, heldOffUntil, i, callers⟩ : Grant).kind = some kind := by
      simp only [Grant.kind, hcaller, Option.bind_some, hkind]
    exact Option.some.inj (h'.symm.trans hsame)
  refine ⟨h.queued, ?_, ?_, ?_, ?_, ?_, ?_⟩
  · intro kind' q hq j hj
    exact h.asleep kind' q hq j (asleep_of_set hnext hj).2
  · refine Runs.forall_mem_concat.mpr ⟨h.servedQueue, fun kind' hkind' q hq => ?_⟩
    obtain rfl := hgrant kind' hkind'
    exact hfirst q hq
  · refine Runs.forall_mem_concat.mpr
      ⟨fun g hg kind' hkind' j hj => ?_, fun kind' hkind' j hj => ?_⟩
    · exact h.servedAsleep g hg kind' hkind' j (asleep_of_set hnext hj).2
    · obtain rfl := hgrant kind' hkind'
      obtain ⟨hij, hj⟩ := asleep_of_set hnext hj
      exact hasleep j hij hj
  · rw [List.length_set]
    exact Runs.forall_mem_concat.mpr ⟨h.bound, hlt⟩
  · refine Runs.forall_mem_concat.mpr ⟨h.inTurn, ?_, ?_⟩
    · intro hfalse
      exact hcommands (hgrant false hfalse).symm
    · intro kind' hkind'
      obtain rfl := hgrant kind' hkind'
      exact harrival
  · intro kind'
    rw [servedOf_concat]
    split
    · rename_i hkind'
      obtain rfl := hgrant kind' hkind'
      refine Runs.pairwise_concat.mpr ⟨h.sorted kind', fun c hc => ?_⟩
      obtain ⟨g, hg, rfl⟩ := List.mem_map.mp hc
      obtain ⟨hmem, hsame⟩ := List.mem_filter.mp hg
      exact hserved g hmem (of_decide_eq_true hsame)
    · rw [List.append_nil]
      exact h.sorted kind'

/-! ## `_admit` -/

/-- Whoever does not fall asleep and does not join a queue starts no wait. -/
theorem waits_of_set {j : ℕ} {kind' : Bool} (hsleep : ∀ kind, next ≠ .sleeping kind)
    (hwait : ∀ kind cancelling, next ≠ .waiting kind .pending cancelling)
    (hj : Waits (callers.set i next) kind' j) : Waits callers kind' j := by
  rcases hj with hj | ⟨cancelling, hj⟩
  · exact Or.inl (asleep_of_set hsleep hj).2
  · exact Or.inr ⟨cancelling, (pending_of_set (hwait kind') hj).2⟩

theorem pendingCount_cons (s : Slots) (w : ℕ) (rest : List ℕ) :
    s.pendingCount (w :: rest) = s.pendingCount rest + s.pendingCount [w] := by
  rw [pendingCount, List.countP_cons, pendingCount, pendingCount, List.countP_cons,
    List.countP_nil, Nat.zero_add]

theorem pendingCount_pending {cancelling : Bool}
    (h : s.callers[i]? = some (.waiting kind .pending cancelling)) : s.pendingCount [i] = 1 := by
  simp [pendingCount, h]

theorem pendingCount_other
    (h : ∀ kind cancelling, s.callers[i]? ≠ some (.waiting kind .pending cancelling)) :
    s.pendingCount [i] = 0 := by
  rw [pendingCount, List.countP_eq_zero]
  intro j hj hpending
  obtain rfl := List.mem_singleton.mp hj
  split at hpending
  · rename_i hcaller
    exact h _ _ hcaller
  · exact absurd hpending (by simp)

/-- The waiters of a queue count the same after a change elsewhere. -/
theorem pendingCount_congr {s' : Slots} {list : List ℕ}
    (h : ∀ j ∈ list, s'.callers[j]? = s.callers[j]?) :
    s'.pendingCount list = s.pendingCount list := by
  rw [pendingCount, pendingCount]
  apply List.countP_congr
  intro j hj
  rw [h j hj]

theorem pendingCount_grant {list : List ℕ} (h : i ∉ list) (next : Caller) :
    (s.grant i next).pendingCount list = s.pendingCount list := by
  apply pendingCount_congr
  intro j hj
  have hij : i ≠ j := by
    rintro rfl
    exact h hj
  exact List.getElem?_set_ne hij

/-- What a waiter at the head of its queue may be. -/
theorem QueueOk.head {w : ℕ} {rest : List ℕ} (h : QueueOk callers kind (w :: rest)) :
    (∃ cancelling, callers[w]? = some (.waiting kind .pending cancelling) ∧
        QueueOk (callers.set w (.waiting kind .admitted cancelling)) kind rest) ∨
      ∃ cancelling, callers[w]? = some (.waiting kind .cancelled cancelling) ∧
        QueueOk callers kind rest := by
  obtain ⟨future, cancelling, hw, hfuture⟩ := h.waiting w List.mem_cons_self
  cases future with
  | admitted => exact absurd rfl hfuture
  | pending =>
      have herased : QueueOk (callers.set w (.waiting kind .admitted cancelling)) kind
          ((w :: rest).erase w) := h.erase (by simp)
      rw [List.erase_cons_head] at herased
      exact Or.inl ⟨cancelling, hw, herased⟩
  | cancelled =>
      have herased : QueueOk (callers.set w (.waiting kind .cancelled cancelling)) kind
          ((w :: rest).erase w) := h.erase (by simp)
      obtain ⟨hlt, hget⟩ := List.getElem?_eq_some_iff.mp hw
      rw [List.erase_cons_head, ← hget, List.set_getElem_self] at herased
      exact Or.inr ⟨cancelling, hw, herased⟩

/-- The loop over a queue goes on for as long as there is room. -/
theorem admitFrom_fills {list : List ℕ} (hok : QueueOk s.callers kind list)
    (h : s.limit ≤ s.inFlight + s.pendingCount list) :
    (s.admitFrom list).1.limit ≤ (s.admitFrom list).1.inFlight := by
  induction list generalizing s with
  | nil => exact h
  | cons w rest ih =>
      by_cases hroom : s.inFlight < s.limit
      · rw [pendingCount_cons] at h
        rcases hok.head with ⟨cancelling, hw, hrest⟩ | ⟨cancelling, hw, hrest⟩
        · rw [admitFrom, if_pos hroom, hw]
          apply ih hrest
          rw [pendingCount_grant (List.nodup_cons.mp hok.nodup).1]
          rw [pendingCount_pending hw] at h
          show s.limit ≤ s.inFlight + 1 + s.pendingCount rest
          omega
        · rw [admitFrom, if_pos hroom, hw]
          apply ih hrest
          rwa [pendingCount_other (by simp [hw]), Nat.add_zero] at h
      · rw [admitFrom_full (Nat.le_of_not_lt hroom)]
        exact Nat.le_of_not_lt hroom

/-- The loop over a queue serves it in order. -/
theorem admitFrom_ordered {list : List ℕ} (h : Ordered s.callers s.grants queue)
    (hqueue : queue kind = list) (hok : QueueOk s.callers kind list)
    (hcommands : kind = false → s.inFlight < s.limit → 0 < s.pendingCount list →
      ∀ j, ¬ Waits s.callers true j) :
    Ordered (s.admitFrom list).1.callers (s.admitFrom list).1.grants
      (Function.update queue kind (s.admitFrom list).2) := by
  -- over the queue; `hcommands` is asked again for what is left of it
  induction list generalizing s queue with
  | nil =>
      have hsame : Function.update queue kind [] = queue := by
        rw [← hqueue]
        exact Function.update_eq_self kind queue
      rw [admitFrom, hsame]
      exact h
  | cons w rest ih =>
      by_cases hroom : s.inFlight < s.limit
      · have hsorted := h.queued kind
        rw [hqueue] at hsorted
        obtain ⟨hfirst, -⟩ := List.pairwise_cons.mp hsorted
        have hmem : w ∈ queue kind := by
          rw [hqueue]
          exact List.mem_cons_self
        have hpopped : Ordered s.callers s.grants (Function.update queue kind rest) := by
          refine h.calm (fun _ _ hj => hj) (Nat.le_refl _) fun kind' => ?_
          by_cases hkind : kind' = kind
          · subst hkind
            rw [Function.update_self, hqueue]
            exact List.sublist_cons_self w rest
          · rw [Function.update_of_ne hkind]
        rcases hok.head with ⟨cancelling, hw, hrest⟩ | ⟨cancelling, hw, hrest⟩
        · rw [admitFrom, if_pos hroom, hw]
          have hcount : 0 < s.pendingCount (w :: rest) := by
            rw [pendingCount_cons, pendingCount_pending hw]
            omega
          -- the first of the queue is the first of its class: the others of the queue
          -- come later and the sleepers after them
          have harrival : ∀ j < w, ¬ Waits s.callers kind j := by
            rintro j hj (hasleep | ⟨cancelling', hpending⟩)
            · exact absurd (h.asleep kind w hmem j hasleep) (by omega)
            · rcases List.mem_cons.mp (hok.pending j cancelling' hpending) with rfl | hj'
              · exact absurd hj (Nat.lt_irrefl j)
              · exact absurd (hfirst j hj') (by omega)
          have hgrant : Ordered (s.grant w (.waiting kind .admitted cancelling)).callers
              (s.grant w (.waiting kind .admitted cancelling)).grants
                (Function.update queue kind rest) := by
            refine hpopped.grant hw rfl (by simp) (fun g hg hkind => ?_) ?_ ?_ harrival
              (fun hfalse => hcommands hfalse hroom hcount) _ _ _ _
            · exact h.servedQueue g hg kind hkind w hmem
            · rw [Function.update_self]
              exact hfirst
            · intro j _ hj
              exact h.asleep kind w hmem j hj
          have hlater := ih hgrant (Function.update_self ..) hrest fun hfalse _ _ j hj =>
            hcommands hfalse hroom hcount j (waits_of_set (by simp) (by simp) hj)
          rwa [Function.update_idem] at hlater
        · rw [admitFrom, if_pos hroom, hw]
          -- a future that was cancelled is passed over and takes no slot
          have hlater := ih hpopped (Function.update_self ..) hrest fun hfalse _ hcount => by
            refine hcommands hfalse hroom ?_
            rw [pendingCount_cons]
            omega
          rwa [Function.update_idem] at hlater
      · rw [admitFrom_full (Nat.le_of_not_lt hroom), ← hqueue, Function.update_eq_self]
        exact h

/-- The two queues. -/
def queues (s : Slots) : Bool → List ℕ
  | true => s.urgent
  | false => s.ordinary

/-- Admission wakes nobody. -/
theorem StillOrAdmitted.asleep {j : ℕ} (h : StillOrAdmitted callers callers' j)
    (hj : Asleep callers' kind j) : Asleep callers kind j := by
  rcases h with hstill | ⟨urgent, cancelling, -, hadmitted⟩
  · exact hstill.symm.trans hj
  · rw [Asleep, hadmitted] at hj
    simp at hj

theorem StillOrAdmitted.pending {j : ℕ} {cancelling : Bool} (h : StillOrAdmitted callers callers' j)
    (hj : callers'[j]? = some (.waiting kind .pending cancelling)) :
    callers[j]? = some (.waiting kind .pending cancelling) := by
  rcases h with hstill | ⟨urgent, cancelling, -, hadmitted⟩
  · exact hstill.symm.trans hj
  · rw [hadmitted] at hj
    simp at hj

theorem pendingCount_pos {list : List ℕ} : 0 < s.pendingCount list ↔
    ∃ j ∈ list, ∃ kind cancelling, s.callers[j]? = some (.waiting kind .pending cancelling) := by
  rw [pendingCount, List.countP_pos_iff]
  constructor
  · rintro ⟨j, hj, hpending⟩
    split at hpending
    · rename_i kind cancelling hcaller
      exact ⟨j, hj, kind, cancelling, hcaller⟩
    · exact absurd hpending (by simp)
  · rintro ⟨j, hj, kind, cancelling, hcaller⟩
    exact ⟨j, hj, by simp [hcaller]⟩

/-- `_admit` serves both queues in order, if it has nothing for housekeeping while a command
sleeps. -/
theorem admitWaiters_ordered (h : Accounted s) (hurgent : QueueOk s.callers true s.urgent)
    (hordinary : QueueOk s.callers false s.ordinary)
    (hord : Ordered s.callers s.grants s.queues)
    (hsleep : ¬ 0 < s.holdingOff → s.LeavesAsleep (s.limit - s.inFlight)) :
    Ordered s.admitWaiters.callers s.admitWaiters.grants s.admitWaiters.queues := by
  unfold admitWaiters
  by_cases hheld : 0 < s.holdingOff
  · rw [if_pos hheld]
    exact hord
  · rw [if_neg hheld]
    obtain ⟨-, hurgent₁, hordinary₁, hsame₁, hend₁⟩ := admitFrom_spec h hurgent hordinary hheld
    have hothers := fun j => (admitFrom_others s s.urgent j).2
    have hfirst := admitFrom_ordered hord rfl hurgent (by simp)
    have hqueue : Function.update s.queues true (s.admitFrom s.urgent).2 false =
        (s.admitFrom s.urgent).1.ordinary := by
      rw [Function.update_of_ne (by simp), hsame₁.ordinary]
      rfl
    rw [← hsame₁.ordinary] at hordinary₁
    have hsecond := admitFrom_ordered hfirst hqueue hordinary₁ fun _ hroom hcount => by
      -- there is room, so the commands were all let through and had left some
      have hleft : s.pendingCount s.urgent < s.limit - s.inFlight := by
        by_contra hfull
        exact absurd (admitFrom_fills hurgent (by omega)) (Nat.not_le_of_lt hroom)
      have hhousekeeping : 0 < s.pendingCount s.ordinary := by
        obtain ⟨j, hj, kind, cancelling, hpending⟩ := pendingCount_pos.mp hcount
        rw [hsame₁.ordinary] at hj
        exact pendingCount_pos.mpr ⟨j, hj, kind, cancelling, (hothers j).pending hpending⟩
      rintro j (hasleep | ⟨cancelling, hpending⟩)
      · exact hsleep hheld hleft hhousekeeping j ((hothers j).asleep hasleep)
      · have hmem := hurgent₁.pending j cancelling hpending
        rcases hend₁ with hempty | hfull
        · rw [hempty] at hmem
          exact absurd hmem List.not_mem_nil
        · exact absurd hfull (Nat.not_le_of_lt hroom)
    refine hsecond.calm (fun _ _ hj => hj) (Nat.le_refl _) fun kind => ?_
    cases kind with
    | true => exact List.Sublist.refl _
    | false => exact List.Sublist.refl _

/-! ## Steps -/

variable {urgent : Bool}

theorem queue_lt_length (h : SlotsInv s) {q : ℕ} (hq : q ∈ s.queues kind) :
    q < s.callers.length := by
  have hwaits : ∃ future cancelling, s.callers[q]? = some (.waiting kind future cancelling) := by
    cases kind with
    | true =>
        obtain ⟨future, cancelling, hq, -⟩ := h.urgentOk.waiting q hq
        exact ⟨future, cancelling, hq⟩
    | false =>
        obtain ⟨future, cancelling, hq, -⟩ := h.ordinaryOk.waiting q hq
        exact ⟨future, cancelling, hq⟩
  obtain ⟨future, cancelling, hq⟩ := hwaits
  exact (List.getElem?_eq_some_iff.mp hq).1

/-- The gate with its order. -/
structure InOrder (s : Slots) : Prop extends SlotsInv s where
  ordered : Ordered s.callers s.grants s.queues

/-- A caller that changes without falling asleep or joining a queue. -/
theorem Ordered.set (h : Ordered callers grants queue) (hnext : ∀ kind, next ≠ .sleeping kind) :
    Ordered (callers.set i next) grants queue :=
  h.calm (fun _ _ hj => (asleep_of_set hnext hj).2) (Nat.le_of_eq List.length_set.symm)
    fun _ => List.Sublist.refl _

theorem resize_ordered (h : InOrder s) {asked : List (String × ℕ)} (hasked : ∀ r ∈ asked, 1 ≤ r.2)
    (hfreed : ∀ room, s.moved (lowest asked) = some room → ¬ 0 < s.holdingOff →
      s.LeavesAsleep room) :
    let s' := ({ s with asked := asked } : Slots).resize (lowest asked)
    Ordered s'.callers s'.grants s'.queues := by
  intro s'
  have hmax : max 1 (lowest asked) = lowest asked := Nat.max_eq_right (one_le_lowest hasked)
  by_cases hsame : lowest asked = s.limit
  · have hs' : s' = { s with asked := asked } := by
      show (if max 1 (lowest asked) = s.limit then _ else _ : Slots) = _
      rw [hmax, if_pos hsame]
    rw [hs']
    exact h.ordered
  · have hs' : s' = ({ s with asked := asked, limit := lowest asked } : Slots).admitWaiters := by
      show (if max 1 (lowest asked) = s.limit then _ else _ : Slots) = _
      rw [hmax, if_neg hsame]
    rw [hs']
    refine admitWaiters_ordered { h.toAccounted with limit := rfl, asked := hasked } h.urgentOk
      h.ordinaryOk h.ordered fun hheld => ?_
    refine hfreed _ ?_ hheld
    rw [moved, hmax, if_neg hsame]

theorem handOn_ordered (h : InOrder s) (hcaller : s.callers[i]? = some caller)
    (hholds : caller.holdsSlot = true)
    (hfreed : ¬ 0 < s.holdingOff → s.LeavesAsleep (s.limit - (s.inFlight - 1))) :
    Ordered (s.handOn i).callers (s.handOn i).grants (s.handOn i).queues := by
  obtain ⟨haccounted, hurgent, hordinary⟩ := h.leaveBlock hcaller hholds
  obtain ⟨hnotUrgent, hnotOrdinary⟩ := h.notMem_of_holds hcaller hholds
  have hcount : ∀ list : List ℕ, i ∉ list →
      ({ s with inFlight := s.inFlight - 1, callers := s.callers.set i .gone } :
        Slots).pendingCount list = s.pendingCount list := by
    intro list hlist
    apply pendingCount_congr
    intro j hj
    have hij : i ≠ j := by
      rintro rfl
      exact hlist hj
    exact List.getElem?_set_ne hij
  refine admitWaiters_ordered haccounted hurgent hordinary (h.ordered.set (by simp))
    fun hheld hleft hhousekeeping j hasleep => ?_
  exact hfreed hheld (hcount s.urgent hnotUrgent ▸ hleft)
    (hcount s.ordinary hnotOrdinary ▸ hhousekeeping) j (asleep_of_set (by simp) hasleep).2

/-- A sleeper before whom nobody sleeps takes its place at the end of its queue. -/
theorem Ordered.push (h : Ordered callers grants queue) (hcaller : Asleep callers kind i)
    (hjoins : ∀ j < i, ¬ Asleep callers kind j) :
    Ordered (callers.set i (.waiting kind .pending false)) grants
      (Function.update queue kind (queue kind ++ [i])) := by
  have hsleep : ∀ kind' j, Asleep (callers.set i (.waiting kind .pending false)) kind' j →
      i ≠ j ∧ Asleep callers kind' j := fun kind' j => asleep_of_set (by simp)
  refine ⟨?_, ?_, ?_, ?_, ?_, h.inTurn, h.sorted⟩
  · intro kind'
    by_cases hkind : kind' = kind
    · subst hkind
      rw [Function.update_self]
      exact Runs.pairwise_concat.mpr ⟨h.queued kind', fun q hq => h.asleep kind' q hq i hcaller⟩
    · rw [Function.update_of_ne hkind]
      exact h.queued kind'
  · intro kind' q hq j hj
    obtain ⟨hij, hasleep⟩ := hsleep kind' j hj
    by_cases hkind : kind' = kind
    · subst hkind
      rw [Function.update_self] at hq
      rcases List.mem_append.mp hq with hq | hq
      · exact h.asleep kind' q hq j hasleep
      · obtain rfl := List.mem_singleton.mp hq
        rcases Nat.lt_or_ge j q with hlt | hge
        · exact absurd hasleep (hjoins j hlt)
        · omega
    · rw [Function.update_of_ne hkind] at hq
      exact h.asleep kind' q hq j hasleep
  · intro g hg kind' hkind' q hq
    by_cases hkind : kind' = kind
    · subst hkind
      rw [Function.update_self] at hq
      rcases List.mem_append.mp hq with hq | hq
      · exact h.servedQueue g hg kind' hkind' q hq
      · obtain rfl := List.mem_singleton.mp hq
        exact h.servedAsleep g hg kind' hkind' q hcaller
    · rw [Function.update_of_ne hkind] at hq
      exact h.servedQueue g hg kind' hkind' q hq
  · intro g hg kind' hkind' j hj
    exact h.servedAsleep g hg kind' hkind' j (hsleep kind' j hj).2
  · rw [List.length_set]
    exact h.bound

theorem attempt_ordered (h : InOrder s) (hcaller : Asleep s.callers urgent i)
    (hjoins : ¬ 0 < s.holdingOff → ∀ j < i, ¬ Asleep s.callers urgent j)
    (henters : ¬ 0 < s.holdingOff → urgent = false → s.waiting = 0 → s.inFlight < s.limit →
      ∀ j, ¬ Asleep s.callers true j) :
    Ordered (s.attempt i urgent).callers (s.attempt i urgent).grants
      (s.attempt i urgent).queues := by
  unfold attempt
  by_cases hheld : 0 < s.holdingOff
  · rw [if_pos hheld]
    obtain ⟨hlt, hget⟩ := List.getElem?_eq_some_iff.mp hcaller
    have hsame : s.callers.set i (.sleeping urgent) = s.callers := by
      rw [← hget, List.set_getElem_self]
    show Ordered (s.callers.set i (.sleeping urgent)) s.grants s.queues
    rw [hsame]
    exact h.ordered
  rw [if_neg hheld]
  -- with room and empty queues the caller is next; otherwise it goes to the end of its
  -- queue
  by_cases hroom : s.waiting = 0 ∧ s.inFlight < s.limit
  · rw [if_pos hroom]
    have hnobody : ∀ (kind : Bool) (j : ℕ) (cancelling : Bool),
        s.callers[j]? ≠ some (Caller.waiting kind .pending cancelling) :=
      fun _ _ _ hpending => h.waiting_ne_zero hpending hroom.1
    have hempty : ∀ kind, s.queues kind = [] := by
      have hlengths : s.urgent.length + s.ordinary.length = 0 := hroom.1
      intro kind
      cases kind with
      | true => exact List.length_eq_zero_iff.mp (by omega : s.urgent.length = 0)
      | false => exact List.length_eq_zero_iff.mp (by omega : s.ordinary.length = 0)
    refine h.ordered.grant hcaller rfl (by simp) (fun g hg hkind => ?_) ?_ ?_ ?_ ?_ _ _ _ _
    · exact h.ordered.servedAsleep g hg urgent hkind i hcaller
    · rw [hempty]
      exact fun q hq => absurd hq List.not_mem_nil
    · intro j hij hj
      rcases Nat.lt_or_ge j i with hlt | hge
      · exact absurd hj (hjoins hheld j hlt)
      · omega
    · rintro j hj (hasleep | ⟨cancelling, hpending⟩)
      · exact hjoins hheld j hj hasleep
      · exact hnobody urgent j cancelling hpending
    · rintro hfalse j (hasleep | ⟨cancelling, hpending⟩)
      · exact henters hheld hfalse hroom.1 hroom.2 j hasleep
      · exact hnobody true j cancelling hpending
  · rw [if_neg hroom]
    have hpush := h.ordered.push hcaller (hjoins hheld)
    cases urgent with
    | true =>
        refine hpush.calm (fun _ _ hj => hj) (Nat.le_refl _) fun kind => ?_
        cases kind with
        | true => exact List.Sublist.refl _
        | false => exact List.Sublist.refl _
    | false =>
        refine hpush.calm (fun _ _ hj => hj) (Nat.le_refl _) fun kind => ?_
        cases kind with
        | true => exact List.Sublist.refl _
        | false => exact List.Sublist.refl _

/-- A new caller, who asked after everybody else. -/
theorem asleep_of_concat {j : ℕ} (hj : Asleep (callers ++ [.sleeping urgent]) kind j) :
    Asleep callers kind j ∨ j = callers.length := by
  rw [Asleep, List.getElem?_append] at hj
  by_cases hlt : j < callers.length
  · rw [if_pos hlt] at hj
    exact Or.inl hj
  · rw [if_neg hlt] at hj
    have hin := (List.getElem?_eq_some_iff.mp hj).1
    rw [List.length_singleton] at hin
    exact Or.inr (by omega)

theorem InOrder.withCaller (h : InOrder s) (urgent : Bool) :
    InOrder { s with callers := s.callers ++ [.sleeping urgent] } where
  toSlotsInv := h.toSlotsInv.withCaller urgent
  ordered := by
    refine ⟨h.ordered.queued, ?_, h.ordered.servedQueue, ?_, ?_, h.ordered.inTurn, h.ordered.sorted⟩
    · intro kind q hq j hj
      rcases asleep_of_concat hj with hj | rfl
      · exact h.ordered.asleep kind q hq j hj
      · exact queue_lt_length h.toSlotsInv hq
    · intro g hg kind hkind j hj
      rcases asleep_of_concat hj with hj | rfl
      · exact h.ordered.servedAsleep g hg kind hkind j hj
      · exact h.ordered.bound g hg
    · intro g hg
      rw [List.length_append]
      exact Nat.lt_add_right _ (h.ordered.bound g hg)

theorem fire_ordered (h : InOrder s) {timer : ℕ}
    (hfreed : ¬ 0 < s.holdingOff → timer < s.timers.length →
      s.LeavesAsleep (s.limit - s.inFlight)) :
    Ordered (s.step (.fire timer)).callers (s.step (.fire timer)).grants
      (s.step (.fire timer)).queues := by
  simp only [Slots.step]
  by_cases htimer : timer < s.timers.length
  · rw [if_pos htimer]
    let woken : Slots := { s with timers := s.timers.eraseIdx timer }
    by_cases hheld : 0 < s.holdingOff
    · have hwoken : 0 < woken.holdingOff := hheld
      rw [if_pos hwoken]
      exact h.ordered
    · have hwoken : ¬ 0 < woken.holdingOff := hheld
      rw [if_neg hwoken]
      have hcooling : s.now < s.heldOffUntil → s.heldOffUntil ∈ woken.timers := fun hlt =>
        absurd (holdingOff_pos.mpr hlt) hheld
      exact admitWaiters_ordered { h.toAccounted with cooling := hcooling } h.urgentOk h.ordinaryOk
        h.ordered fun _ => hfreed hheld htimer
  · rw [if_neg htimer]
    exact h.ordered

/-- A waiter whose future was cancelled leaves its queue. -/
theorem leave_ordered (h : InOrder s) (urgent : Bool) (i : ℕ) :
    let left : Slots := { s with callers := s.callers.set i .gone }
    let s' : Slots := if urgent then { left with urgent := left.urgent.erase i }
      else { left with ordinary := left.ordinary.erase i }
    Ordered s'.callers s'.grants s'.queues := by
  have hgone : Ordered (s.callers.set i .gone) s.grants s.queues := h.ordered.set (by simp)
  cases urgent with
  | true =>
      refine hgone.calm (fun _ _ hj => hj) (Nat.le_refl _) fun kind => ?_
      cases kind with
      | true => exact List.erase_sublist
      | false => exact List.Sublist.refl _
  | false =>
      refine hgone.calm (fun _ _ hj => hj) (Nat.le_refl _) fun kind => ?_
      cases kind with
      | true => exact List.Sublist.refl _
      | false => exact List.erase_sublist

/-- A step that overtakes nobody keeps the order. -/
theorem InOrder.step {a : SlotsAct} (h : InOrder s)
    (ha : 0 < s.holdingOff ∨ s.OvertakesNone a) : InOrder (s.step a) where
  toSlotsInv := h.toSlotsInv.step a
  ordered := by
    have hopen : ¬ 0 < s.holdingOff → s.OvertakesNone a := fun hheld => ha.resolve_left hheld
    -- slots are granted in `_admit` and in `attempt`; `hopen` says of both that nobody
    -- asleep goes before
    cases a with
    | register address limit =>
        refine resize_ordered h (fun r hr => ?_) fun room hroom hheld =>
          (hopen hheld).admits room hroom
        rcases List.mem_append.mp hr with hr | hr
        · exact h.asked r (List.mem_of_mem_filter hr)
        · obtain rfl := List.mem_singleton.mp hr
          show 1 ≤ (max 1 limit).toNat
          omega
    | withdraw address =>
        simp only [Slots.step]
        by_cases hasked : s.asked.any (·.1 = address)
        · rw [if_pos hasked]
          refine resize_ordered h (fun r hr => h.asked r (List.mem_of_mem_filter hr))
            fun room hroom hheld => (hopen hheld).admits room ?_
          rw [freed, if_pos hasked]
          exact hroom
        · rw [if_neg hasked]
          exact h.ordered
    | acquire urgent =>
        have hlast : Asleep (s.callers ++ [.sleeping urgent]) urgent s.callers.length :=
          List.getElem?_concat_length
        refine attempt_ordered (h.withCaller urgent) hlast ?_ ?_
        · intro hheld j hj hasleep
          rcases asleep_of_concat hasleep with hasleep | rfl
          · exact (hopen hheld).joins _ urgent rfl j hj hasleep
          · exact absurd hj (Nat.lt_irrefl _)
        · rintro hheld rfl hwaiting hroom j hasleep
          rcases asleep_of_concat hasleep with hasleep | rfl
          · exact (hopen hheld).enters _ rfl hwaiting hroom j hasleep
          · exact absurd (hlast.symm.trans hasleep) (by simp)
    | resume i =>
        cases hcaller : s.callers[i]? with
        | none => simpa only [Slots.step, hcaller] using h.ordered
        | some caller =>
            simp only [Slots.step, hcaller]
            cases caller with
            | sleeping urgent =>
                have hpassing : s.passing (.resume i) = some (i, urgent) := by
                  simp only [passing, hcaller]
                refine attempt_ordered h hcaller
                  (fun hheld => (hopen hheld).joins i urgent hpassing) ?_
                rintro hheld rfl
                exact (hopen hheld).enters i hpassing
            | waiting urgent future cancelling =>
                cases future with
                | pending => exact h.ordered
                | admitted =>
                    cases cancelling with
                    | false => exact h.ordered.set (by simp)
                    | true =>
                        refine handOn_ordered h hcaller rfl fun hheld => (hopen hheld).admits _ ?_
                        simp only [freed, hcaller]
                | cancelled => exact leave_ordered h urgent i
            | holding => exact h.ordered
            | gone => exact h.ordered
    | release i =>
        simp only [Slots.step]
        split
        · rename_i hcaller
          refine handOn_ordered h hcaller rfl fun hheld => (hopen hheld).admits _ ?_
          simp only [freed, hcaller]
        · exact h.ordered
    | cancel i =>
        simp only [Slots.step]
        split
        · exact h.ordered.set (by simp)
        · exact h.ordered.set (by simp)
        · exact h.ordered.set (by simp)
        · rename_i hcaller
          refine handOn_ordered h hcaller rfl fun hheld => (hopen hheld).admits _ ?_
          simp only [freed, hcaller]
        · exact h.ordered
    | holdOff seconds =>
        simp only [Slots.step]
        split <;> exact h.ordered
    | pass seconds => exact h.ordered
    | fire timer =>
        refine fire_ordered h fun hheld htimer => (hopen hheld).admits _ ?_
        rw [freed, if_pos htimer]

/-! ## Whole runs -/

theorem inOrder_start (now : ℕ) : InOrder (start now) where
  toSlotsInv := slotsInv_start now
  ordered := by
    refine ⟨?_, ?_, by simp [start], by simp [start], by simp [start], by simp [start], ?_⟩
    · intro kind
      cases kind <;> exact List.Pairwise.nil
    · intro kind q hq
      cases kind <;> exact absurd hq List.not_mem_nil
    · intro kind
      exact List.Pairwise.nil

/-- **Commands first, and each class in the order of its calls, in every run that overtakes no
sleeper once a hold-off is over.** -/
theorem commands_first (now : ℕ) (acts : List SlotsAct)
    (hsteps : Runs.Along step (fun s a => 0 < s.holdingOff ∨ s.OvertakesNone a) (start now) acts) :
    CommandsFirst (Runs.run step (start now) acts) := by
  have h : InOrder (Runs.run step (start now) acts) :=
    Runs.run_invariant (fun _ _ h ha => h.step ha) (inOrder_start now) hsteps
  exact ⟨h.ordered.inTurn, h.ordered.sorted⟩

/-- Where nobody is asleep, nobody is overtaken. -/
theorem overtakesNone_of_awake (h : ∀ c ∈ s.callers, ∀ kind, c ≠ .sleeping kind) (a : SlotsAct) :
    s.OvertakesNone a := by
  have hawake : ∀ kind i, ¬ Asleep s.callers kind i := fun kind i hi =>
    h _ (List.mem_of_getElem? hi) kind rfl
  exact ⟨fun _ kind _ j _ => hawake kind j, fun _ _ _ _ => hawake true,
    fun _ _ _ _ => hawake true⟩

/-- A state read and two commands behind the one that holds the slot, the read having asked first;
then a hold-off that everybody sleeps out who asks. -/
theorem commands_first_sample :
    CommandsFirst (Runs.run step (start 0) [.register "A" 1, .acquire false, .acquire false,
      .acquire true, .acquire true, .release 0, .resume 2, .release 2, .holdOff 5,
      .acquire false]) :=
  commands_first 0 _ (Runs.Along.mono
    (fun s a h => h.imp_right fun hawake => overtakesNone_of_awake hawake a)
    (by decide : Runs.Along step
      (fun s _ => 0 < s.holdingOff ∨ ∀ c ∈ s.callers, ∀ kind, c ≠ .sleeping kind) (start 0) _))

/-- A state read is queued, the host is held off, a command asks and sleeps, the slot comes back;
the timer gives it to the read while the command is still asleep. -/
theorem sleeping_command_overtaken :
    ¬ CommandsFirst (Runs.run step (start 0) [.register "A" 1, .acquire false, .acquire false,
      .holdOff 5, .acquire true, .release 0, .pass 5, .fire 0]) := by
  intro h
  have hgrants : (Runs.run step (start 0) [.register "A" 1, .acquire false, .acquire false,
      .holdOff 5, .acquire true, .release 0, .pass 5, .fire 0]).grants =
    [⟨0, 1, 0, 0, 0, [.sleeping false]⟩,
      ⟨0, 1, 5, 5, 1, [.gone, .waiting false .pending false, .sleeping true]⟩] := by decide
  have hturn := h.inTurn ⟨0, 1, 5, 5, 1, [.gone, .waiting false .pending false, .sleeping true]⟩
    (by rw [hgrants]; exact List.mem_cons_of_mem _ List.mem_cons_self)
  exact hturn.commands rfl 2 (Or.inl rfl)

end Slots

end BTHomeWritable.Receiver
