import BTHomeWritable.Lib.WaitFor
import BTHomeWritable.Receiver.Link
import BTHomeWritable.Receiver.SlotsInv
import Mathlib.Data.List.Perm.Subperm

/-!
# One central per device, and nobody stuck

The invariant has three parts: the tasks past the lock of their device are the
callers of the gate, one each (`CallersOk`); a lock is held by the one task of its
device that is past it, and its queue is asleep only behind such a task
(`LockOk`); a connection is open only under a task inside the block (`LinksOk`).
Each operation changes the place of one task and wakes at most one other.

* `Moves` is that one task changes its place.  Every part of the invariant has a
  lemma about it, and each operation is then a move or two.
* A lock that has just been released has `LockBase` only; waking the first waiter
  completes it (`LinkInv.wake`).
* `LinkInv.step` needs a `tidy` stack: a connection that could not be made, or was
  to be ended, is gone.  Over such a stack there is `OneCentral` per device.
* Hosts that are `Parallel` differ in the open connections alone, and go on alike.
  So nobody is stuck over any stack, and over one that leaves nothing open there
  is one central as well (`step_tidy`).

`one_central_and_no_deadlock` puts the two together: every run is free of
deadlock, and one in which no step `leavesOpen` a connection has one central per
device.  `two_connections_after_cancelled_disconnect` is a run with such a step.
-/

namespace BTHomeWritable.Receiver.Host

/-- Task `t` works for the device at `a` and stands at `p`. -/
def At (s : Host) (t : ℕ) (a : String) (p : Phase) : Prop :=
  ∃ work, s.tasks[t]? = some ⟨a, work, p⟩

end Host

/-- The caller of the gate that a task past its device's lock is. -/
def Phase.caller : Phase → Option ℕ
  | .slot caller | .inside caller _ => some caller
  | _ => none

/-- A connection may be open. -/
def Phase.linked : Phase → Bool
  | .inside _ (.connected _) | .inside _ (.disconnecting _ _) => true
  | _ => false

/-- The device's lock is asked for before a slot. -/
def Phase.rank : Phase → ℕ
  | .turn _ _ => 1
  | _ => 0

/-- What the gate must show for a task that stands there. -/
def Phase.Fits (callers : List Caller) : Phase → Prop
  | .slot caller => ∃ c, callers[caller]? = some c ∧ c ≠ .gone
  | .inside caller _ => callers[caller]? = some .holding
  | _ => True

namespace Host

structure CallersOk (s : Host) : Prop where
  fits : ∀ t a p, s.At t a p → p.Fits s.gate.callers
  distinct : ∀ t t' a a' p p' c, s.At t a p → s.At t' a' p' → p.caller = some c →
    p'.caller = some c → t = t'
  owner : ∀ c caller, s.gate.callers[c]? = some caller → caller ≠ .gone →
    ∃ t a p, s.At t a p ∧ p.caller = some c

/-- The lock of the device at `a`, before its queue has been looked after. -/
structure LockBase (s : Host) (a : String) : Prop where
  locked : (s.locks a).locked = true ↔ ∃ t p, s.At t a p ∧ p.caller ≠ none
  turn : ∀ t t' p p', s.At t a p → s.At t' a p' → p.caller ≠ none → p'.caller ≠ none → t = t'
  nodup : (s.locks a).waiters.Nodup
  waiters : ∀ t, t ∈ (s.locks a).waiters ↔ ∃ future cancelling, s.At t a (.turn future cancelling)
  woken : ∀ t cancelling, s.At t a (.turn .admitted cancelling) →
    (s.locks a).locked = false ∧ (s.locks a).waiters.head? = some t

/-- An open lock with a queue has its first waiter set to wake up. -/
structure LockOk (s : Host) (a : String) : Prop extends LockBase s a where
  head : (s.locks a).locked = false → ∀ t, (s.locks a).waiters.head? = some t →
    ∀ cancelling, ¬ s.At t a (.turn .pending cancelling)

structure LinksOk (s : Host) : Prop where
  owner : ∀ l ∈ s.links, ∃ p, s.At l.1 l.2 p ∧ p.linked = true
  nodup : (s.links.map Prod.fst).Nodup

structure LinkInv (s : Host) : Prop where
  gate : s.gate.SlotsInv
  callers : CallersOk s
  locks : ∀ a, LockOk s a
  links : LinksOk s

variable {s s' : Host} {t u c : ℕ} {a b : String} {p q : Phase}

/-! ## Tasks change one at a time -/

theorem At.unique (h : s.At t a p) (h' : s.At t b q) : a = b ∧ p = q := by
  obtain ⟨work, h⟩ := h
  obtain ⟨work', h'⟩ := h'
  rw [h] at h'
  simp only [Option.some.injEq, LinkTask.mk.injEq] at h'
  exact ⟨h'.1, h'.2.2⟩

/-- The tasks of `s'` are those of `s`, with `t` of the device at `a` standing at `p`. -/
def Moves (s s' : Host) (t : ℕ) (a : String) (p : Phase) : Prop :=
  ∀ u b q, s'.At u b q ↔ (u = t ∧ b = a ∧ q = p) ∨ (u ≠ t ∧ s.At u b q)

theorem setPhase_getElem? (s : Host) (t u : ℕ) (p : Phase) :
    (s.setPhase t p).tasks[u]? =
      if t = u then s.tasks[u]?.map fun task => { task with phase := p } else s.tasks[u]? := by
  unfold setPhase
  rw [List.getElem?_modify]
  split
  · rfl
  · simp

theorem moves_setPhase (h : s.At t a q) (p : Phase) : Moves s (s.setPhase t p) t a p := by
  intro u b r
  obtain ⟨work, h⟩ := h
  unfold At
  rw [setPhase_getElem?]
  by_cases hu : t = u
  · subst hu
    rw [if_pos rfl, h]
    constructor
    · rintro ⟨_, hat⟩
      cases hat
      exact Or.inl ⟨rfl, rfl, rfl⟩
    · rintro (⟨-, rfl, rfl⟩ | ⟨hne, -⟩)
      · exact ⟨work, rfl⟩
      · exact absurd rfl hne
  · rw [if_neg hu]
    simp [Ne.symm hu]

theorem Moves.self (h : Moves s s' t a p) : s'.At t a p := (h t a p).mpr (Or.inl ⟨rfl, rfl, rfl⟩)

theorem Moves.other (h : Moves s s' t a p) (hne : u ≠ t) : s'.At u b q ↔ s.At u b q := by
  rw [h]
  simp [hne]

theorem Moves.cases (h : Moves s s' t a p) (hat : s'.At u b q) :
    (u = t ∧ b = a ∧ q = p) ∨ (u ≠ t ∧ s.At u b q) := (h u b q).mp hat

theorem fits_still {callers callers' : List Caller} (h : p.Fits callers)
    (hstill : ∀ c, p.caller = some c → Slots.StillOrAdmitted callers callers' c) :
    p.Fits callers' := by
  cases p with
  | turn future cancelling => trivial
  | slot caller =>
      obtain ⟨x, hx, hlive⟩ := h
      obtain heq | ⟨urgent, cancelling, -, hadmitted⟩ := hstill caller rfl
      · exact ⟨x, heq.trans hx, hlive⟩
      · exact ⟨_, hadmitted, by simp⟩
  | inside caller stage =>
      obtain heq | ⟨urgent, cancelling, hpending, -⟩ := hstill caller rfl
      · exact heq.trans h
      · have hholding : callers[caller]? = some .holding := h
        simp [hholding] at hpending
  | ended => trivial

/-- A task moves while the gate takes a step for the caller `c` that it was or becomes. -/
theorem CallersOk.moves (h : CallersOk s) (hmoves : Moves s s' t a p)
    (hstill : ∀ j, j ≠ c → Slots.StillOrAdmitted s.gate.callers s'.gate.callers j)
    (hfree : ∀ u b q, u ≠ t → s.At u b q → q.caller ≠ some c)
    (hold : ∀ b q, s.At t b q → ∀ j, q.caller = some j → j = c)
    (hfits : p.Fits s'.gate.callers) (hnew : ∀ j, p.caller = some j → j = c)
    (hlive : ∀ caller, s'.gate.callers[c]? = some caller → caller ≠ .gone → p.caller = some c) :
    CallersOk s' where
  fits u b q hat := by
    obtain ⟨rfl, rfl, rfl⟩ | ⟨hne, hat⟩ := hmoves.cases hat
    · exact hfits
    · apply fits_still (h.fits u b q hat)
      intro j hj
      apply hstill j
      rintro rfl
      exact hfree u b q hne hat hj
  distinct u u' b b' q q' j hat hat' hj hj' := by
    obtain ⟨rfl, rfl, rfl⟩ | ⟨hne, hat⟩ := hmoves.cases hat
    · obtain ⟨rfl, rfl, rfl⟩ | ⟨hne', hat'⟩ := hmoves.cases hat'
      · rfl
      · exact absurd (hnew j hj ▸ hj') (hfree u' b' q' hne' hat')
    · obtain ⟨rfl, rfl, rfl⟩ | ⟨hne', hat'⟩ := hmoves.cases hat'
      · exact absurd (hnew j hj' ▸ hj) (hfree u b q hne hat)
      · exact h.distinct u u' b b' q q' j hat hat' hj hj'
  owner j caller hcaller hgone := by
    by_cases hj : j = c
    · subst hj
      exact ⟨t, a, p, hmoves.self, hlive caller hcaller hgone⟩
    · have hbefore : ∃ before, s.gate.callers[j]? = some before ∧ before ≠ .gone := by
        obtain heq | ⟨urgent, cancelling, hpending, -⟩ := hstill j hj
        · exact ⟨caller, heq ▸ hcaller, hgone⟩
        · exact ⟨_, hpending, by simp⟩
      obtain ⟨before, hbefore, hlivebefore⟩ := hbefore
      obtain ⟨u, b, q, hat, hq⟩ := h.owner j before hbefore hlivebefore
      have hne : u ≠ t := by
        rintro rfl
        exact hj (hold b q hat j hq)
      exact ⟨u, b, q, (hmoves.other hne).mpr hat, hq⟩

/-- A step of the gate for nobody in particular. -/
theorem CallersOk.gate (h : CallersOk s) {gate : Slots}
    (hstill : ∀ j, Slots.StillOrAdmitted s.gate.callers gate.callers j) :
    CallersOk { s with gate := gate } where
  fits t a p hat := fits_still (h.fits t a p hat) fun j _ => hstill j
  distinct := h.distinct
  owner c caller hcaller hgone := by
    obtain heq | ⟨urgent, cancelling, hpending, -⟩ := hstill c
    · exact h.owner c caller (heq ▸ hcaller) hgone
    · exact h.owner c _ hpending (by simp)

/-- The next caller of the gate is nobody yet. -/
theorem CallersOk.fresh (h : CallersOk s) (hat : s.At t a p) :
    p.caller ≠ some s.gate.callers.length := by
  intro hp
  have hfits := h.fits t a p hat
  cases p with
  | turn future cancelling => simp [Phase.caller] at hp
  | slot caller =>
      obtain ⟨x, hx, -⟩ := hfits
      obtain rfl : caller = s.gate.callers.length := by simpa [Phase.caller] using hp
      simp at hx
  | inside caller stage =>
      have hx : s.gate.callers[caller]? = some .holding := hfits
      obtain rfl : caller = s.gate.callers.length := by simpa [Phase.caller] using hp
      simp at hx
  | ended => simp [Phase.caller] at hp

/-- The gate is left alone by a task that is no caller before and after. -/
theorem CallersOk.outside (h : CallersOk s) (hmoves : Moves s s' t a p)
    (hgate : s'.gate.callers = s.gate.callers) (hold : ∀ b q, s.At t b q → q.caller = none)
    (hp : p.caller = none) : CallersOk s' := by
  apply h.moves (c := s.gate.callers.length) hmoves
  · intro j _
    exact Or.inl (by rw [hgate])
  · exact fun u b q _ hat => h.fresh hat
  · intro b q hat j hj
    rw [hold b q hat] at hj
    simp at hj
  · cases p with
    | turn future cancelling => trivial
    | slot caller => simp [Phase.caller] at hp
    | inside caller stage => simp [Phase.caller] at hp
    | ended => trivial
  · intro j hj
    rw [hp] at hj
    simp at hj
  · intro caller hcaller
    rw [hgate] at hcaller
    simp at hcaller

/-- A device is not concerned by what the tasks of other devices do. -/
theorem LockOk.frame (h : LockOk s b) (hlock : s'.locks b = s.locks b)
    (hat : ∀ t p, s'.At t b p ↔ s.At t b p) : LockOk s' b := by
  refine ⟨⟨?_, ?_, ?_, ?_, ?_⟩, ?_⟩
  · simpa only [hlock, hat] using h.locked
  · simpa only [hat] using h.turn
  · simpa only [hlock] using h.nodup
  · simpa only [hlock, hat] using h.waiters
  · simpa only [hlock, hat] using h.woken
  · simpa only [hlock, hat] using h.head

theorem Moves.frame (h : Moves s s' t a p) (hold : ∀ b q, s.At t b q → b = a) (hb : b ≠ a) :
    ∀ u q, s'.At u b q ↔ s.At u b q := by
  intro u q
  rw [h]
  constructor
  · rintro (⟨-, rfl, -⟩ | ⟨-, hat⟩)
    · exact absurd rfl hb
    · exact hat
  · intro hat
    refine Or.inr ⟨?_, hat⟩
    rintro rfl
    exact hb (hold b q hat)

theorem Moves.trans {s'' : Host} (h : Moves s s' t a p) (h' : Moves s' s'' t a q) :
    Moves s s'' t a q := by
  intro u b r
  rw [h', h]
  by_cases hu : u = t <;> simp [hu]

theorem moves_concat (s : Host) (a : String) (work : Work) (p : Phase) :
    Moves s { s with tasks := s.tasks ++ [⟨a, work, p⟩] } s.tasks.length a p := by
  intro u b q
  unfold At
  rcases lt_trichotomy u s.tasks.length with hu | rfl | hu
  · rw [List.getElem?_append_left hu]
    simp [hu.ne]
  · simp only [List.getElem?_concat_length, Option.some.injEq, LinkTask.mk.injEq, true_and, ne_eq,
      not_true, false_and, or_false]
    constructor
    · rintro ⟨_, rfl, -, rfl⟩
      exact ⟨rfl, rfl⟩
    · rintro ⟨rfl, rfl⟩
      exact ⟨work, rfl, rfl, rfl⟩
  · have hlong : (s.tasks ++ [(⟨a, work, p⟩ : LinkTask)]).length ≤ u := by
      rw [List.length_append, List.length_singleton]
      omega
    rw [List.getElem?_eq_none hlong, List.getElem?_eq_none hu.le]
    simp [hu.ne']

theorem LinksOk.moves (h : LinksOk s) (hmoves : Moves s s' t a p) (hlinks : s'.links = s.links)
    (hold : ∀ b q, s.At t b q → b = a) (hkeep : p.linked = true ∨ ∀ l ∈ s.links, l.1 ≠ t) :
    LinksOk s' where
  owner l hl := by
    rw [hlinks] at hl
    obtain ⟨q, hat, hq⟩ := h.owner l hl
    by_cases ht : l.1 = t
    · obtain hp | hnone := hkeep
      · obtain rfl : l.2 = a := hold _ _ (ht ▸ hat)
        exact ⟨p, ht ▸ hmoves.self, hp⟩
      · exact absurd ht (hnone l hl)
    · exact ⟨q, (hmoves.other ht).mpr hat, hq⟩
  nodup := by
    rw [hlinks]
    exact h.nodup

/-- Who has no link yet has none open. -/
theorem LinksOk.unlinked (h : LinksOk s) (hold : ∀ b q, s.At t b q → q.linked = false) :
    ∀ l ∈ s.links, l.1 ≠ t := by
  rintro l hl rfl
  obtain ⟨q, hat, hq⟩ := h.owner l hl
  simp [hold _ _ hat] at hq

/-! ## The lock -/

/-- Who stands where a phase of one sort is, does not change when a task moves between phases
of another sort. -/
theorem Moves.sort (h : Moves s s' t a p) (sort : Phase → Prop) (hp : ¬ sort p)
    (hold : ∀ b q, s.At t b q → ¬ sort q) {r : Phase} (hr : sort r) : s'.At u b r ↔ s.At u b r := by
  rw [h]
  constructor
  · rintro (⟨-, -, rfl⟩ | ⟨-, hat⟩)
    · exact absurd hr hp
    · exact hat
  · intro hat
    refine Or.inr ⟨?_, hat⟩
    rintro rfl
    exact hold b r hat hr

/-- Who is past its turn is so after a task has moved among those that are not. -/
theorem Moves.past (h : Moves s s' t a p) (hp : p.caller = none)
    (hold : ∀ b q, s.At t b q → q.caller = none) {u : ℕ} {r : Phase} (hr : r.caller ≠ none) :
    s'.At u a r ↔ s.At u a r := by
  apply h.sort (fun r => r.caller ≠ none) (by simp [hp]) _ hr
  intro b q hat
  simp [hold b q hat]

section SamePast

variable (h : LockBase s a)
  (hpast : ∀ {u : ℕ} {r : Phase}, r.caller ≠ none → (s'.At u a r ↔ s.At u a r))

include h hpast

theorem LockBase.locked_of_past :
    (s.locks a).locked = true ↔ ∃ u r, s'.At u a r ∧ r.caller ≠ none := by
  rw [h.locked]
  constructor
  · rintro ⟨u, r, hat, hr⟩
    exact ⟨u, r, (hpast hr).mpr hat, hr⟩
  · rintro ⟨u, r, hat, hr⟩
    exact ⟨u, r, (hpast hr).mp hat, hr⟩

theorem LockBase.turn_of_past (u u' : ℕ) (r r' : Phase) (hat : s'.At u a r) (hat' : s'.At u' a r')
    (hr : r.caller ≠ none) (hr' : r'.caller ≠ none) : u = u' :=
  h.turn u u' r r' ((hpast hr).mp hat) ((hpast hr').mp hat') hr hr'

end SamePast

/-- A task that is out of the queue waits for nothing there any more. -/
theorem LockBase.mem_erase_iff (h : LockBase s a) (hmoves : Moves s s' t a p)
    (hp : ∀ future cancelling, p ≠ .turn future cancelling) (u : ℕ) :
    u ∈ (s.locks a).waiters.erase t ↔
      ∃ future cancelling, s'.At u a (.turn future cancelling) := by
  rw [h.nodup.mem_erase_iff, h.waiters]
  constructor
  · rintro ⟨hne, future, cancelling, hat⟩
    exact ⟨future, cancelling, (hmoves.other hne).mpr hat⟩
  · rintro ⟨future, cancelling, hat⟩
    obtain ⟨-, -, hsame⟩ | ⟨hne, hat⟩ := hmoves.cases hat
    · exact absurd hsame.symm (hp future cancelling)
    · exact ⟨hne, future, cancelling, hat⟩

theorem LockOk.past (h : LockOk s a) (hmoves : Moves s s' t a p) (hat : s.At t a q)
    (hq : q.caller ≠ none) (hp : p.caller ≠ none) (hlocks : s'.locks a = s.locks a) :
    LockOk s' a := by
  have hlocked : (s.locks a).locked = true := h.locked.mpr ⟨t, q, hat, hq⟩
  have hturn : ∀ u future cancelling,
      s'.At u a (.turn future cancelling) ↔ s.At u a (.turn future cancelling) := by
    intro u future cancelling
    apply hmoves.sort (fun r => r.caller = none) hp _ rfl
    intro b r hat'
    rwa [(hat'.unique hat).2]
  refine ⟨⟨?_, ?_, ?_, ?_, ?_⟩, ?_⟩
  · rw [hlocks]
    exact ⟨fun _ => ⟨t, p, hmoves.self, hp⟩, fun _ => hlocked⟩
  · have honly : ∀ u r, s'.At u a r → r.caller ≠ none → u = t := by
      intro u r hat' hr
      obtain ⟨rfl, -, -⟩ | ⟨-, hat'⟩ := hmoves.cases hat'
      · rfl
      · exact h.turn u t r q hat' hat hr hq
    intro u u' r r' hat' hat'' hr hr'
    rw [honly u r hat' hr, honly u' r' hat'' hr']
  · rw [hlocks]
    exact h.nodup
  · simpa only [hlocks, hturn] using h.waiters
  · simpa only [hlocks, hturn] using h.woken
  · simpa only [hlocks, hturn] using h.head

/-- The holder leaves: its lock is open, and its queue as it was. -/
theorem LockOk.left (h : LockOk s a) (hmoves : Moves s s' t a .ended) (hat : s.At t a q)
    (hq : q.caller ≠ none) (hlocks : s'.locks a = { s.locks a with locked := false }) :
    LockBase s' a := by
  have hlocked : (s.locks a).locked = true := h.locked.mpr ⟨t, q, hat, hq⟩
  have hnone : ∀ u r, s'.At u a r → r.caller = none := by
    intro u r hat'
    obtain ⟨rfl, -, rfl⟩ | ⟨hne, hat'⟩ := hmoves.cases hat'
    · rfl
    · by_contra hr
      exact hne (h.turn u t r q hat' hat hr hq)
  have hturn : ∀ u future cancelling,
      s'.At u a (.turn future cancelling) ↔ s.At u a (.turn future cancelling) := by
    intro u future cancelling
    apply hmoves.sort (fun r => r ≠ .ended ∧ r.caller = none) (by simp) _ ⟨by simp, rfl⟩
    rintro b r hat' ⟨-, hr⟩
    exact hq ((hat'.unique hat).2 ▸ hr)
  refine ⟨?_, ?_, ?_, ?_, ?_⟩
  · rw [hlocks]
    constructor
    · intro hfalse
      simp at hfalse
    · rintro ⟨u, r, hat', hr⟩
      exact absurd (hnone u r hat') hr
  · intro u u' r r' hat' _ hr _
    exact absurd (hnone u r hat') hr
  · rw [hlocks]
    exact h.nodup
  · simpa only [hlocks, hturn] using h.waiters
  · intro u cancelling hat'
    rw [hturn] at hat'
    simp [(h.woken u cancelling hat').1] at hlocked

/-- A waiter is out of the queue, with the cancellation. -/
theorem LockOk.dropped (h : LockOk s a) (hmoves : Moves s s' t a .ended) {future : SlotFuture}
    {cancelling : Bool} (hat : s.At t a (.turn future cancelling))
    (hlocks : s'.locks a = { s.locks a with waiters := (s.locks a).waiters.erase t }) :
    LockBase s' a := by
  have hpast : ∀ {u : ℕ} {r : Phase}, r.caller ≠ none → (s'.At u a r ↔ s.At u a r) := by
    apply hmoves.past rfl
    intro b q hat'
    rw [(hat'.unique hat).2]
    rfl
  refine ⟨?_, h.turn_of_past hpast, ?_, ?_, ?_⟩
  · rw [hlocks]
    exact h.locked_of_past hpast
  · rw [hlocks]
    exact h.nodup.erase t
  · intro u
    rw [hlocks]
    exact h.mem_erase_iff hmoves (by simp) u
  · intro u cancelling hat'
    obtain ⟨-, -, hfalse⟩ | ⟨hne, hat'⟩ := hmoves.cases hat'
    · simp at hfalse
    · obtain ⟨hopen, hhead⟩ := h.woken u cancelling hat'
      refine ⟨by rw [hlocks]; exact hopen, ?_⟩
      rw [hlocks]
      show ((s.locks a).waiters.erase t).head? = some u
      obtain ⟨rest, hrest⟩ := List.head?_eq_some_iff.mp hhead
      rw [hrest, List.erase_cons_tail (by simpa using hne)]
      rfl

/-- A task takes the open lock, from the queue or straight. -/
theorem LockOk.taken (h : LockOk s a) (hmoves : Moves s s' t a p) (hp : p.caller ≠ none)
    (hopen : (s.locks a).locked = false)
    (hnone : ∀ u cancelling, u ≠ t → ¬ s.At u a (.turn .admitted cancelling))
    (hlocks : s'.locks a = ⟨true, (s.locks a).waiters.erase t⟩) : LockOk s' a := by
  have hbefore : ∀ u r, s.At u a r → r.caller = none := by
    intro u r hat
    by_contra hr
    simp [h.locked.mpr ⟨u, r, hat, hr⟩] at hopen
  refine ⟨⟨?_, ?_, ?_, ?_, ?_⟩, ?_⟩
  · rw [hlocks]
    exact ⟨fun _ => ⟨t, p, hmoves.self, hp⟩, fun _ => rfl⟩
  · have honly : ∀ u r, s'.At u a r → r.caller ≠ none → u = t := by
      intro u r hat hr
      obtain ⟨rfl, -, -⟩ | ⟨-, hat⟩ := hmoves.cases hat
      · rfl
      · exact absurd (hbefore u r hat) hr
    intro u u' r r' hat hat' hr hr'
    rw [honly u r hat hr, honly u' r' hat' hr']
  · rw [hlocks]
    exact h.nodup.erase t
  · intro u
    rw [hlocks]
    refine h.mem_erase_iff hmoves ?_ u
    rintro future cancelling rfl
    exact hp rfl
  · intro u cancelling hat
    obtain ⟨-, -, rfl⟩ | ⟨hne, hat⟩ := hmoves.cases hat
    · exact absurd rfl hp
    · exact absurd hat (hnone u cancelling hne)
  · intro hfalse
    rw [hlocks] at hfalse
    simp at hfalse

/-- A new task at the end of a queue that is not free to pass. -/
theorem LockOk.queued (h : LockOk s a) (hmoves : Moves s s' t a (.turn .pending false))
    (hnew : ∀ b p, ¬ s.At t b p)
    (hbusy : (s.locks a).locked = true ∨ (s.locks a).waiters ≠ [])
    (hlocks : s'.locks a = { s.locks a with waiters := (s.locks a).waiters ++ [t] }) :
    LockOk s' a := by
  -- the newcomer is nobody who waits already, and it goes last
  have hfresh : t ∉ (s.locks a).waiters := by
    rw [h.waiters]
    rintro ⟨future, cancelling, hat⟩
    exact hnew _ _ hat
  have hpast : ∀ {u : ℕ} {r : Phase}, r.caller ≠ none → (s'.At u a r ↔ s.At u a r) :=
    hmoves.past rfl fun b q hat => absurd hat (hnew b q)
  have hhead : ∀ u, (s.locks a).waiters.head? = some u →
      ((s.locks a).waiters ++ [t]).head? = some u := by
    intro u hu
    rw [List.head?_append, hu]
    rfl
  refine ⟨⟨?_, h.turn_of_past hpast, ?_, ?_, ?_⟩, ?_⟩
  · rw [hlocks]
    exact h.locked_of_past hpast
  · rw [hlocks]
    exact Runs.pairwise_concat.mpr ⟨h.nodup, fun u hu hut => hfresh (hut ▸ hu)⟩
  · intro u
    rw [hlocks]
    show u ∈ (s.locks a).waiters ++ [t] ↔ _
    rw [List.mem_append, List.mem_singleton]
    constructor
    · rintro (hu | rfl)
      · obtain ⟨future, cancelling, hat⟩ := (h.waiters u).mp hu
        refine ⟨future, cancelling, (hmoves.other ?_).mpr hat⟩
        rintro rfl
        exact hfresh hu
      · exact ⟨.pending, false, hmoves.self⟩
    · rintro ⟨future, cancelling, hat⟩
      obtain ⟨rfl, -, -⟩ | ⟨-, hat⟩ := hmoves.cases hat
      · exact Or.inr rfl
      · exact Or.inl ((h.waiters u).mpr ⟨future, cancelling, hat⟩)
  · intro u cancelling hat
    obtain ⟨-, -, hfalse⟩ | ⟨hne, hat⟩ := hmoves.cases hat
    · simp at hfalse
    · obtain ⟨hopen, hu⟩ := h.woken u cancelling hat
      rw [hlocks]
      exact ⟨hopen, hhead u hu⟩
  · intro hopen u hu cancelling hat
    rw [hlocks] at hopen hu
    have hnonempty : (s.locks a).waiters ≠ [] := by
      obtain hlocked | hnonempty := hbusy
      · have hfalse : (s.locks a).locked = false := hopen
        simp [hlocked] at hfalse
      · exact hnonempty
    obtain ⟨first, rest, hwaiters⟩ := List.exists_cons_of_ne_nil hnonempty
    have hfirst : (s.locks a).waiters.head? = some first := by rw [hwaiters]; rfl
    obtain rfl : first = u := Option.some.inj ((hhead first hfirst).symm.trans hu)
    obtain ⟨rfl, -, -⟩ | ⟨-, hat⟩ := hmoves.cases hat
    · exact hfresh (List.mem_of_mem_head? hfirst)
    · exact h.head hopen first hfirst cancelling hat

/-- Asking a waiter to cancel: its place in the queue stays. -/
theorem LockOk.cancelled (h : LockOk s a) {future future' : SlotFuture}
    {cancelling cancelling' : Bool}
    (hmoves : Moves s s' t a (.turn future' cancelling'))
    (hat : s.At t a (.turn future cancelling))
    (hadmitted : future' = .admitted → future = .admitted)
    (hpending : future' ≠ .pending) (hlocks : s'.locks a = s.locks a) : LockOk s' a := by
  have hpast : ∀ {u : ℕ} {r : Phase}, r.caller ≠ none → (s'.At u a r ↔ s.At u a r) := by
    apply hmoves.past rfl
    intro b q hat'
    rw [(hat'.unique hat).2]
    rfl
  refine ⟨⟨?_, h.turn_of_past hpast, ?_, ?_, ?_⟩, ?_⟩
  · rw [hlocks]
    exact h.locked_of_past hpast
  · rw [hlocks]
    exact h.nodup
  · intro u
    rw [hlocks, h.waiters]
    by_cases hu : u = t
    · subst hu
      exact ⟨fun _ => ⟨_, _, hmoves.self⟩, fun _ => ⟨_, _, hat⟩⟩
    · simp only [hmoves.other hu]
  · intro u c hat'
    rw [hlocks]
    obtain ⟨rfl, -, hsame⟩ | ⟨-, hat'⟩ := hmoves.cases hat'
    · cases hsame
      obtain rfl := hadmitted rfl
      exact h.woken u cancelling hat
    · exact h.woken u c hat'
  · intro hopen u hu c hat'
    rw [hlocks] at hopen hu
    obtain ⟨-, -, hsame⟩ | ⟨-, hat'⟩ := hmoves.cases hat'
    · cases hsame
      exact hpending rfl
    · exact h.head hopen u hu c hat'

theorem wakeUpFirst_cases (h : LockBase s a) :
    (s.wakeUpFirst a = s ∧ ∀ t, (s.locks a).waiters.head? = some t →
        ∀ cancelling, ¬ s.At t a (.turn .pending cancelling)) ∨
      ∃ first cancelling, (s.locks a).waiters.head? = some first ∧
        s.At first a (.turn .pending cancelling) ∧
        s.wakeUpFirst a = s.setPhase first (.turn .admitted cancelling) := by
  unfold wakeUpFirst
  cases hwaiters : (s.locks a).waiters with
  | nil => exact Or.inl ⟨rfl, by simp⟩
  | cons first rest =>
      have hfirst : first ∈ (s.locks a).waiters := by rw [hwaiters]; exact List.mem_cons_self
      obtain ⟨future, cancelling, hat⟩ := (h.waiters first).mp hfirst
      have hphase : s.phaseOf first = some (.turn future cancelling) := by
        obtain ⟨work, hat⟩ := hat
        unfold phaseOf
        rw [hat]
        rfl
      simp only [hphase]
      cases future with
      | pending => exact Or.inr ⟨first, cancelling, rfl, hat, rfl⟩
      | admitted =>
          refine Or.inl ⟨rfl, ?_⟩
          intro t ht c hat'
          obtain rfl : first = t := Option.some.inj ht
          simpa using (hat.unique hat').2
      | cancelled =>
          refine Or.inl ⟨rfl, ?_⟩
          intro t ht c hat'
          obtain rfl : first = t := Option.some.inj ht
          simpa using (hat.unique hat').2

/-- Only the lock that the task which moved asks for needs looking after. -/
theorem LinkInv.locksAfter (h : LinkInv s) (hmoves : Moves s s' t a p)
    (hold : ∀ b q, s.At t b q → b = a) (hlocks : ∀ b, b ≠ a → s'.locks b = s.locks b)
    (hself : LockOk s' a) : ∀ b, LockOk s' b := by
  intro b
  by_cases hb : b = a
  · subst hb
    exact hself
  · exact (h.locks b).frame (hlocks b hb) (hmoves.frame hold hb)

/-- Waking the first waiter up completes an invariant that an open lock has left open. -/
theorem LinkInv.wake (hgate : s.gate.SlotsInv) (hcallers : CallersOk s) (hlinks : LinksOk s)
    (hbase : LockBase s a) (hopen : (s.locks a).locked = false)
    (hothers : ∀ b, b ≠ a → LockOk s b) : LinkInv (s.wakeUpFirst a) := by
  -- either the first waiter is asleep and is woken up, or nobody asleep is first
  obtain ⟨hsame, hnone⟩ | ⟨first, cancelling, hfirst, hat, hsame⟩ := wakeUpFirst_cases hbase
  · rw [hsame]
    refine ⟨hgate, hcallers, ?_, hlinks⟩
    intro b
    by_cases hb : b = a
    · subst hb
      exact ⟨hbase, fun _ => hnone⟩
    · exact hothers b hb
  · rw [hsame]
    have hmoves := moves_setPhase hat (.turn .admitted cancelling)
    have hold : ∀ b q, s.At first b q → b = a := fun b q hat' => (hat'.unique hat).1
    refine ⟨hgate, ?_, ?_, ?_⟩
    · apply hcallers.outside hmoves rfl
      · intro b q hat'
        rw [(hat'.unique hat).2]
        rfl
      · rfl
    · intro b
      by_cases hb : b = a
      · subst hb
        refine ⟨⟨?_, ?_, hbase.nodup, ?_, ?_⟩, ?_⟩
        · rw [show (s.setPhase first (.turn .admitted cancelling)).locks = s.locks from rfl, hopen]
          constructor
          · intro hfalse
            simp at hfalse
          · rintro ⟨u, r, hat', hr⟩
            obtain ⟨-, -, rfl⟩ | ⟨-, hat'⟩ := hmoves.cases hat'
            · exact absurd rfl hr
            · rw [← hopen]
              exact hbase.locked.mpr ⟨u, r, hat', hr⟩
        · intro u u' r r' hat' hat'' hr hr'
          obtain ⟨-, -, rfl⟩ | ⟨-, hat'⟩ := hmoves.cases hat'
          · exact absurd rfl hr
          · have hlocked := hbase.locked.mpr ⟨u, r, hat', hr⟩
            simp [hopen] at hlocked
        · intro u
          refine (hbase.waiters u).trans ?_
          by_cases hu : u = first
          · subst hu
            exact ⟨fun _ => ⟨_, _, hmoves.self⟩, fun _ => ⟨_, _, hat⟩⟩
          · simp only [hmoves.other hu]
        · intro u c hat'
          refine ⟨hopen, ?_⟩
          obtain ⟨rfl, -, -⟩ | ⟨-, hat'⟩ := hmoves.cases hat'
          · exact hfirst
          · exact (hbase.woken u c hat').2
        · intro _ u hu c hat'
          obtain rfl : first = u := Option.some.inj (hfirst.symm.trans hu)
          obtain ⟨-, hsame⟩ := hmoves.self.unique hat'
          simp at hsame
      · exact (hothers b hb).frame rfl (hmoves.frame hold hb)
    · refine hlinks.moves hmoves rfl hold (Or.inr (hlinks.unlinked ?_))
      intro b q hat'
      rw [(hat'.unique hat).2]
      rfl

/-! ## The operations -/

theorem linked_of_caller_none (h : p.caller = none) : p.linked = false := by
  cases p with
  | turn future cancelling => rfl
  | slot caller => rfl
  | inside caller stage => simp [Phase.caller] at h
  | ended => rfl

theorem LinkInv.withGate (h : LinkInv s) {gate : Slots} (hgate : gate.SlotsInv)
    (hstill : ∀ j, Slots.StillOrAdmitted s.gate.callers gate.callers j) :
    LinkInv { s with gate := gate } where
  gate := hgate
  callers := h.callers.gate hstill
  locks a := (h.locks a).frame rfl fun _ _ => Iff.rfl
  links := ⟨h.links.owner, h.links.nodup⟩

/-- A connection ends, by itself or by a `disconnect`. -/
theorem LinkInv.closed (h : LinkInv s) (t : ℕ) : LinkInv (s.closeLink t false) where
  gate := h.gate
  callers := ⟨h.callers.fits, h.callers.distinct, h.callers.owner⟩
  locks a := (h.locks a).frame rfl fun _ _ => Iff.rfl
  links :=
    ⟨fun l hl => h.links.owner l (List.mem_of_mem_filter hl),
      h.links.nodup.sublist (List.Sublist.map _ List.filter_sublist)⟩

/-- The device's lock taken, and a new caller of the gate. -/
theorem LinkInv.taken (h : LinkInv s) {urgent : Bool}
    (hmoves : Moves s s' t a (.slot s.gate.callers.length))
    (hold : ∀ b q, s.At t b q → b = a ∧ q.caller = none) (hopen : (s.locks a).locked = false)
    (hnone : ∀ u cancelling, u ≠ t → ¬ s.At u a (.turn .admitted cancelling))
    (hlocks : s'.locks = Function.update s.locks a ⟨true, (s.locks a).waiters.erase t⟩)
    (hgate : s'.gate = s.gate.step (.acquire urgent)) (hlinks : s'.links = s.links) :
    LinkInv s' := by
  obtain ⟨caller, hcallers, hlive⟩ := Slots.step_acquire_callers s.gate urgent
  have hfresh : s'.gate.callers[s.gate.callers.length]? = some caller := by
    rw [hgate, hcallers, List.getElem?_concat_length]
  refine ⟨hgate ▸ h.gate.step _, ?_, ?_, ?_⟩
  · apply h.callers.moves (c := s.gate.callers.length) hmoves
    · intro j hj
      left
      rw [hgate, hcallers]
      rcases Nat.lt_or_gt_of_ne hj with hlt | hgt
      · exact List.getElem?_append_left hlt
      · rw [List.getElem?_append_right hgt.le, List.getElem?_eq_none hgt.le]
        exact List.getElem?_eq_none (by rw [List.length_singleton]; omega)
    · exact fun u b q _ hat => h.callers.fresh hat
    · intro b q hat j hj
      rw [(hold b q hat).2] at hj
      simp at hj
    · exact ⟨caller, hfresh, hlive⟩
    · intro j hj
      exact (Option.some.inj hj).symm
    · exact fun _ _ _ => rfl
  · apply h.locksAfter hmoves fun b q hat => (hold b q hat).1
    · intro b hb
      rw [hlocks, Function.update_of_ne hb]
    · apply (h.locks a).taken hmoves (by simp [Phase.caller]) hopen hnone
      rw [hlocks, Function.update_self]
  · apply h.links.moves hmoves hlinks fun b q hat => (hold b q hat).1
    right
    apply h.links.unlinked
    exact fun b q hat => linked_of_caller_none (hold b q hat).2

/-- The callers of the gate after a step of it for the task that is caller `c`. -/
theorem CallersOk.ofCaller (h : CallersOk s) (hmoves : Moves s s' t a p) (hat : s.At t a q)
    (hq : q.caller = some c)
    (hstill : ∀ j, j ≠ c → Slots.StillOrAdmitted s.gate.callers s'.gate.callers j)
    (hfits : p.Fits s'.gate.callers) (hnew : ∀ j, p.caller = some j → j = c)
    (hlive : ∀ caller, s'.gate.callers[c]? = some caller → caller ≠ .gone → p.caller = some c) :
    CallersOk s' := by
  apply h.moves hmoves hstill _ _ hfits hnew hlive
  · intro u b r hne hat' hr
    exact hne (h.distinct u t b a r q c hat' hat hr hq)
  · intro b r hat' j hj
    rw [(hat'.unique hat).2, hq] at hj
    exact (Option.some.inj hj).symm

/-- A step of the gate for a task past the lock, which stays past it. -/
theorem LinkInv.past (h : LinkInv s) (hat : s.At t a q) (hq : q.caller = some c)
    (hp : p.caller = some c) {gate : Slots} {links : List (ℕ × String)} (hgate : gate.SlotsInv)
    (hstill : ∀ j, j ≠ c → Slots.StillOrAdmitted s.gate.callers gate.callers j)
    (hfits : p.Fits gate.callers)
    (hlinks : LinksOk (({ s with gate := gate, links := links } : Host).setPhase t p)) :
    LinkInv (({ s with gate := gate, links := links } : Host).setPhase t p) := by
  have hmoves : Moves s (({ s with gate := gate, links := links } : Host).setPhase t p) t a p :=
    moves_setPhase hat p
  refine ⟨hgate, ?_, ?_, hlinks⟩
  · apply h.callers.ofCaller hmoves hat hq hstill hfits
    · intro j hj
      rw [hp] at hj
      exact (Option.some.inj hj).symm
    · exact fun _ _ _ => hp
  · apply h.locksAfter hmoves (fun b r hat' => (hat'.unique hat).1) fun _ _ => rfl
    exact (h.locks a).past hmoves hat (by simp [hq]) (by simp [hp]) rfl

/-- Out of the gate and off the lock. -/
theorem LinkInv.left (h : LinkInv s) (hat : s.At t a q) (hq : q.caller = some c)
    (hunlinked : ∀ l ∈ s.links, l.1 ≠ t) {gate : Slots} (hgate : gate.SlotsInv)
    (hstill : ∀ j, j ≠ c → Slots.StillOrAdmitted s.gate.callers gate.callers j)
    (hgone : gate.callers[c]? = some .gone) :
    LinkInv ((({ s with gate := gate } : Host).setPhase t .ended).giveTurn a) := by
  let left := (({ s with gate := gate } : Host).setPhase t .ended).setLock a
    { s.locks a with locked := false }
  have hmoves : Moves s left t a .ended := moves_setPhase hat .ended
  have hold : ∀ b r, s.At t b r → b = a := fun b r hat' => (hat'.unique hat).1
  have hlock : left.locks a = { s.locks a with locked := false } := Function.update_self ..
  show LinkInv (left.wakeUpFirst a)
  apply LinkInv.wake (s := left) hgate
  · apply h.callers.ofCaller hmoves hat hq hstill trivial
    · intro j hj
      simp [Phase.caller] at hj
    · intro caller hcaller hlive
      exact absurd (Option.some.inj (hcaller.symm.trans hgone)) hlive
  · exact h.links.moves hmoves rfl hold (Or.inr hunlinked)
  · exact (h.locks a).left hmoves hat (by simp [hq]) hlock
  · rw [hlock]
  · intro b hb
    exact (h.locks b).frame (Function.update_of_ne hb ..) (hmoves.frame hold hb)

theorem At.phaseOf (h : s.At t a p) : s.phaseOf t = some p := by
  obtain ⟨work, h⟩ := h
  unfold Host.phaseOf
  rw [h]
  rfl

theorem not_at_length (s : Host) (a : String) (p : Phase) : ¬ s.At s.tasks.length a p := by
  rintro ⟨work, h⟩
  simp at h

theorem takeTurn_moves (hat : s.At t a q) (work : Work) :
    Moves s (s.takeTurn t a work) t a (.slot s.gate.callers.length) := moves_setPhase hat _

theorem LinkInv.enter (h : LinkInv s) (a : String) (work : Work) : LinkInv (s.enter a work) := by
  let joined : Host := { s with tasks := s.tasks ++ [⟨a, work, .turn .pending false⟩] }
  have hjoined : Moves s joined s.tasks.length a (.turn .pending false) := moves_concat s a work _
  have hnew : ∀ b p, ¬ s.At s.tasks.length b p := not_at_length s
  have hfresh : s.tasks.length ∉ (s.locks a).waiters := by
    rw [(h.locks a).waiters]
    rintro ⟨future, cancelling, hat⟩
    exact hnew _ _ hat
  simp only [Host.enter]
  -- the lock is free and nobody waits who could have it, or the task queues
  split
  · rename_i hfree
    rw [Bool.and_eq_true, Bool.not_eq_true', List.all_eq_true] at hfree
    obtain ⟨hopen, hall⟩ := hfree
    apply h.taken (hjoined.trans (takeTurn_moves hjoined.self work)) _ hopen
    · rintro u cancelling hne hat
      have hcancelled := hall u (((h.locks a).waiters u).mpr ⟨_, _, hat⟩)
      rw [show joined.phaseOf u = _ from ((hjoined.other hne).mpr hat).phaseOf] at hcancelled
      simp at hcancelled
    · show Function.update s.locks a { s.locks a with locked := true } = _
      rw [List.erase_of_not_mem hfresh]
    · rfl
    · rfl
    · exact fun b q hat => absurd hat (hnew b q)
  · rename_i hbusy
    have hbusy' : (s.locks a).locked = true ∨ (s.locks a).waiters ≠ [] := by
      by_contra hnot
      simp only [not_or, Bool.not_eq_true, ne_eq, not_not] at hnot
      simp [hnot.1, hnot.2] at hbusy
    let queued :=
      joined.setLock a { s.locks a with waiters := (s.locks a).waiters ++ [s.tasks.length] }
    have hmoves : Moves s queued s.tasks.length a (.turn .pending false) := hjoined
    have hnone : ∀ b q, s.At s.tasks.length b q → b = a := fun b q hat => absurd hat (hnew b q)
    show LinkInv queued
    refine ⟨h.gate, ?_, ?_, ?_⟩
    · exact h.callers.outside hmoves rfl (fun b q hat => absurd hat (hnew b q)) rfl
    · apply h.locksAfter hmoves hnone fun b hb => Function.update_of_ne hb ..
      exact (h.locks a).queued hmoves hnew hbusy' (Function.update_self ..)
    · apply h.links.moves hmoves rfl hnone
      right
      exact h.links.unlinked fun b q hat => absurd hat (hnew b q)

/-- A waiter of the lock resumes with the lock, or with its cancellation. -/
theorem LinkInv.resumeTurn (h : LinkInv s) {task : LinkTask} {future : SlotFuture}
    {cancelling granted : Bool} (htask : s.tasks[t]? = some task)
    (hphase : task.phase = .turn future cancelling)
    (hgranted : granted = true → future = .admitted) :
    LinkInv (s.resumeTurn t task granted) := by
  obtain ⟨a, work, phase⟩ := task
  obtain rfl : phase = .turn future cancelling := hphase
  have hat : s.At t a (.turn future cancelling) := ⟨work, htask⟩
  have hold : ∀ b q, s.At t b q → b = a ∧ q.caller = none := by
    intro b q hat'
    obtain ⟨hb, hq⟩ := hat'.unique hat
    exact ⟨hb, hq ▸ rfl⟩
  -- with the lock the task goes on to the gate; cancelled, it leaves the queue and passes
  -- a wake-up on
  cases granted with
  | true =>
      obtain rfl := hgranted rfl
      obtain ⟨hopen, hhead⟩ := (h.locks a).woken t cancelling hat
      let out := s.setLock a { s.locks a with waiters := (s.locks a).waiters.erase t }
      have hmoves : Moves s (out.takeTurn t a work) t a (.slot s.gate.callers.length) :=
        takeTurn_moves (s := out) hat work
      apply h.taken hmoves hold hopen
      · intro u c hne hat'
        obtain ⟨-, hhead'⟩ := (h.locks a).woken u c hat'
        exact hne (Option.some.inj (hhead'.symm.trans hhead))
      · show Function.update (Function.update s.locks a _) a _ = _
        have hlock : out.locks a = { s.locks a with waiters := (s.locks a).waiters.erase t } :=
          Function.update_self ..
        rw [Function.update_idem]
        simp only [hlock]
      · rfl
      · rfl
  | false =>
      let out := (s.setLock a
        { s.locks a with waiters := (s.locks a).waiters.erase t }).setPhase t .ended
      have hmoves : Moves s out t a .ended := moves_setPhase hat .ended
      have hlock : out.locks a = { s.locks a with waiters := (s.locks a).waiters.erase t } :=
        Function.update_self ..
      have hcallers : CallersOk out :=
        h.callers.outside hmoves rfl (fun b q hat' => (hold b q hat').2) rfl
      have hlinks : LinksOk out := by
        apply h.links.moves hmoves rfl fun b q hat' => (hold b q hat').1
        right
        exact h.links.unlinked fun b q hat' => linked_of_caller_none (hold b q hat').2
      have hbase : LockBase out a := (h.locks a).dropped hmoves hat hlock
      have hothers : ∀ b, b ≠ a → LockOk out b := fun b hb =>
        (h.locks b).frame (Function.update_of_ne hb ..)
          (hmoves.frame (fun b q hat' => (hold b q hat').1) hb)
      show LinkInv (if (s.locks a).locked then out else out.wakeUpFirst a)
      -- a lock that is held will wake the next waiter when it is released; an open one
      -- has to do it now
      by_cases hlocked : (s.locks a).locked = true
      · rw [if_pos hlocked]
        refine ⟨h.gate, hcallers, ?_, hlinks⟩
        intro b
        by_cases hb : b = a
        · subst hb
          refine ⟨hbase, fun hopen => ?_⟩
          rw [hlock] at hopen
          exact absurd hlocked (by simpa using hopen)
        · exact hothers b hb
      · rw [if_neg hlocked]
        apply LinkInv.wake (s := out) h.gate hcallers hlinks hbase _ hothers
        rw [hlock]
        simpa using hlocked

/-- A task in `acquire`, after a step of the gate for it. -/
theorem LinkInv.inGate (h : LinkInv s) (hat : s.At t a (.slot c)) {act : SlotsAct}
    (hstep : Slots.StepOf c s.gate (s.gate.step act)) : LinkInv (s.inGate t c a act) := by
  have hunlinked : ∀ l ∈ s.links, l.1 ≠ t := by
    apply h.links.unlinked
    intro b q hat'
    rw [(hat'.unique hat).2]
    rfl
  have hgate := h.gate.step act
  simp only [Host.inGate]
  -- the gate has let the task in, ended it, or left it waiting
  split
  · rename_i hholding
    refine h.past (p := .inside c .linked) hat rfl rfl hgate hstep.others hholding ?_
    have hmoves : Moves s (({ s with gate := s.gate.step act } : Host).setPhase t
        (.inside c .linked)) t a (.inside c .linked) := moves_setPhase hat _
    exact h.links.moves hmoves rfl (fun b q hat' => (hat'.unique hat).1) (Or.inr hunlinked)
  · rename_i hgone
    exact h.left hat rfl hunlinked hgate hstep.others hgone
  · rename_i hholding hgone
    obtain ⟨x, hx, -⟩ := h.callers.fits t a _ hat
    obtain ⟨hlt, -⟩ := List.getElem?_eq_some_iff.mp hx
    obtain ⟨after, hsome⟩ : ∃ after, (s.gate.step act).callers[c]? = some after :=
      ⟨_, List.getElem?_eq_getElem (by rw [hstep.length]; exact hlt)⟩
    have hstays : Moves s ({ s with gate := s.gate.step act } : Host) t a (.slot c) := by
      intro u b q
      by_cases hu : u = t
      · subst hu
        constructor
        · intro hat'
          obtain ⟨rfl, rfl⟩ := At.unique (s := s) hat' hat
          exact Or.inl ⟨rfl, rfl, rfl⟩
        · rintro (⟨-, rfl, rfl⟩ | ⟨hne, -⟩)
          · exact hat
          · exact absurd rfl hne
      · simp only [hu, false_and, false_or, ne_eq, not_false_eq_true, true_and]
        exact Iff.rfl
    refine ⟨hgate, ?_, fun b => (h.locks b).frame rfl fun _ _ => Iff.rfl,
      ⟨h.links.owner, h.links.nodup⟩⟩
    apply h.callers.moves hstays hstep.others
    · intro u b r hne hat' hr
      exact hne (h.callers.distinct u t b a r _ c hat' hat hr rfl)
    · intro b r hat' j hj
      rw [(hat'.unique hat).2] at hj
      exact (Option.some.inj hj).symm
    · exact ⟨_, hsome, fun hfalse => hgone (hfalse ▸ hsome)⟩
    · intro j hj
      exact (Option.some.inj hj).symm
    · exact fun _ _ _ => rfl

theorem LinkInv.leave (h : LinkInv s) {stage : Stage} (hat : s.At t a (.inside c stage))
    (hunlinked : ∀ l ∈ s.links, l.1 ≠ t) : LinkInv (s.leave t c a) := by
  obtain ⟨hstep, hgone⟩ := Slots.step_release_holding (h.callers.fits t a _ hat)
  exact h.left hat rfl hunlinked (h.gate.step _) hstep.others hgone

/-- A move inside the block, with the links as they are. -/
theorem LinkInv.inside (h : LinkInv s) {stage stage' : Stage} (hat : s.At t a (.inside c stage))
    (hkeep : (Phase.inside c stage').linked = true ∨ ∀ l ∈ s.links, l.1 ≠ t) :
    LinkInv (s.setPhase t (.inside c stage')) := by
  have hmoves : Moves s (s.setPhase t (.inside c stage')) t a (.inside c stage') :=
    moves_setPhase hat _
  refine h.past (p := .inside c stage') hat rfl rfl h.gate
    (fun _ _ => Or.inl rfl) (show s.gate.callers[c]? = _ from h.callers.fits t a _ hat) ?_
  exact h.links.moves hmoves rfl (fun b q hat' => (hat'.unique hat).1) hkeep

variable {stack : BluetoothStack}

theorem LinkInv.connectEnds (h : LinkInv s) {attempt : ℕ}
    (hat : s.At t a (.inside c (.connecting attempt)))
    (hstack : ∀ e, e ≠ .returned → stack.afterConnect e = false) (result : CallEnd) :
    LinkInv (connectEnds stack s t c attempt a result) := by
  -- a task that connects has no connection yet
  have hunlinked : ∀ l ∈ s.links, l.1 ≠ t := by
    apply h.links.unlinked
    intro b q hat'
    rw [(hat'.unique hat).2]
    rfl
  cases result with
  | returned =>
      let open' : Host := { s with links := s.links ++ [(t, a)] }
      have hmoves : Moves s (open'.setPhase t (.inside c (.connected attempt))) t a
          (.inside c (.connected attempt)) := moves_setPhase (s := open') hat _
      refine h.past (p := .inside c (.connected attempt)) hat rfl rfl h.gate
        (fun _ _ => Or.inl rfl) (show s.gate.callers[c]? = _ from h.callers.fits t a _ hat) ⟨?_, ?_⟩
      · intro l hl
        obtain hl | rfl := List.mem_append.mp hl |>.imp_right List.mem_singleton.mp
        · obtain ⟨q, hat', hq⟩ := h.links.owner l hl
          exact ⟨q, (hmoves.other (hunlinked l hl)).mpr hat', hq⟩
        · exact ⟨_, hmoves.self, rfl⟩
      · show ((s.links ++ [(t, a)]).map Prod.fst).Nodup
        rw [List.map_append, List.map_singleton]
        refine Runs.pairwise_concat.mpr ⟨h.links.nodup, ?_⟩
        intro u hu
        obtain ⟨l, hl, rfl⟩ := List.mem_map.mp hu
        exact hunlinked l hl
  | raised =>
      simp only [Host.connectEnds, hstack .raised (by decide)]
      exact h.leave hat hunlinked
  | outOfSlots =>
      simp only [Host.connectEnds, hstack .outOfSlots (by decide)]
      have hheld : LinkInv { s with gate := s.gate.step (.holdOff SLOT_COOLDOWN) } :=
        h.withGate (h.gate.step _) fun j =>
          (Slots.step_others s.gate (Or.inr (Or.inr (Or.inl ⟨_, rfl⟩))) j).2
      exact hheld.leave hat hunlinked
  | cancelled =>
      simp only [Host.connectEnds, hstack .cancelled (by decide)]
      exact h.leave hat hunlinked

theorem LinkInv.disconnectEnds (h : LinkInv s) {attempt : ℕ} {again : Bool}
    (hat : s.At t a (.inside c (.disconnecting attempt again)))
    (hstack : ∀ e, stack.afterDisconnect e = false) (result : CallEnd) :
    LinkInv (disconnectEnds stack s t c attempt again a result) := by
  have hclosed := h.closed t
  have hunlinked : ∀ l ∈ (s.closeLink t false).links, l.1 ≠ t := by
    intro l hl
    simpa using (List.mem_filter.mp hl).2
  simp only [Host.disconnectEnds, hstack]
  split
  · exact hclosed.inside hat (Or.inr hunlinked)
  · exact hclosed.leave hat hunlinked

theorem LinkInv.cancel (h : LinkInv s) {task : LinkTask} (htask : s.tasks[t]? = some task)
    (hconnect : ∀ e, e ≠ .returned → stack.afterConnect e = false)
    (hdisconnect : ∀ e, stack.afterDisconnect e = false) : LinkInv (cancel stack s t task) := by
  obtain ⟨a, work, phase⟩ := task
  have hat : s.At t a phase := ⟨work, htask⟩
  cases phase with
  | turn future cancelling =>
      have hcancelled : ∀ future' cancelling', (future' = .admitted → future = .admitted) →
          future' ≠ .pending → LinkInv (s.setPhase t (.turn future' cancelling')) := by
        intro future' cancelling' hadmitted hpending
        have hmoves := moves_setPhase hat (.turn future' cancelling')
        have hold : ∀ b q, s.At t b q → b = a ∧ q.caller = none := by
          intro b q hat'
          obtain ⟨hb, hq⟩ := hat'.unique hat
          exact ⟨hb, hq ▸ rfl⟩
        refine ⟨h.gate, ?_, ?_, ?_⟩
        · exact h.callers.outside hmoves rfl (fun b q hat' => (hold b q hat').2) rfl
        · apply h.locksAfter hmoves (fun b q hat' => (hold b q hat').1) fun _ _ => rfl
          exact (h.locks a).cancelled hmoves hat hadmitted hpending rfl
        · apply h.links.moves hmoves rfl fun b q hat' => (hold b q hat').1
          right
          exact h.links.unlinked fun b q hat' => linked_of_caller_none (hold b q hat').2
      cases future with
      | pending => exact hcancelled .cancelled cancelling (by simp) (by simp)
      | admitted => exact hcancelled .admitted true (fun _ => rfl) (by simp)
      | cancelled => exact hcancelled .cancelled true (by simp) (by simp)
  | slot caller => exact h.inGate hat (Slots.step_cancel_stepOf s.gate caller)
  | inside caller stage =>
      cases stage with
      | linked => exact h
      | connecting attempt => exact h.connectEnds hat hconnect .cancelled
      | connected attempt => exact h.inside hat (Or.inl rfl)
      | disconnecting attempt again => exact h.disconnectEnds hat hdisconnect .cancelled
  | ended => exact h

theorem LinkInv.taskStep (h : LinkInv s) {task : LinkTask} (htask : s.tasks[t]? = some task)
    (hconnect : ∀ e, e ≠ .returned → stack.afterConnect e = false)
    (hdisconnect : ∀ e, stack.afterDisconnect e = false) (act : LinkAct) :
    LinkInv (taskStep stack s t task act) := by
  obtain ⟨a, work, phase⟩ := task
  have hat : s.At t a phase := ⟨work, htask⟩
  cases act with
  | resume _ =>
      simp only [Host.taskStep]
      split
      · exact h.resumeTurn htask rfl fun _ => rfl
      · exact h.resumeTurn htask rfl (by simp)
      · exact h.inGate hat (Slots.step_resume_stepOf s.gate _)
      · exact h
  | cancel _ => exact h.cancel htask hconnect hdisconnect
  | standDown _ =>
      simp only [Host.taskStep]
      split
      · apply h.leave hat
        apply h.links.unlinked
        intro b q hat'
        rw [(hat'.unique hat).2]
        rfl
      · exact h
  | connect _ =>
      simp only [Host.taskStep]
      split
      · apply h.inside hat
        right
        apply h.links.unlinked
        intro b q hat'
        rw [(hat'.unique hat).2]
        rfl
      · exact h
  | connectEnds _ result =>
      simp only [Host.taskStep]
      split
      · exact h.connectEnds hat hconnect result
      · exact h
  | exchanged _ again =>
      simp only [Host.taskStep]
      split
      · exact h.inside hat (Or.inl rfl)
      · exact h.inside hat (Or.inl rfl)
      · exact h
  | drop _ => exact h.closed t
  | disconnectEnds _ result =>
      simp only [Host.taskStep]
      split
      · exact h.disconnectEnds hat hdisconnect result
      · exact h
  | register _ _ | withdraw _ | pass _ | fire _ | enter _ _ => exact h

theorem LinkInv.step (h : LinkInv s) (hconnect : ∀ e, e ≠ .returned → stack.afterConnect e = false)
    (hdisconnect : ∀ e, stack.afterDisconnect e = false) (act : LinkAct) :
    LinkInv (step stack s act) := by
  have htask : ∀ t, LinkInv (s.tasks[t]?.elim s fun task => Host.taskStep stack s t task act) := by
    intro t
    cases hget : s.tasks[t]? with
    | none => exact h
    | some task => exact h.taskStep hget hconnect hdisconnect act
  cases act with
  | register address limit =>
      exact h.withGate (h.gate.step _) fun j =>
        (Slots.step_others s.gate (Or.inl ⟨_, _, rfl⟩) j).2
  | withdraw address =>
      exact h.withGate (h.gate.step _) fun j =>
        (Slots.step_others s.gate (Or.inr (Or.inl ⟨_, rfl⟩)) j).2
  | pass seconds =>
      exact h.withGate (h.gate.step _) fun j =>
        (Slots.step_others s.gate (Or.inr (Or.inr (Or.inr (Or.inl ⟨_, rfl⟩)))) j).2
  | fire timer =>
      exact h.withGate (h.gate.step _) fun j =>
        (Slots.step_others s.gate (Or.inr (Or.inr (Or.inr (Or.inr ⟨_, rfl⟩)))) j).2
  | enter address work => exact h.enter address work
  | resume t => exact htask t
  | cancel t => exact htask t
  | standDown t => exact htask t
  | connect t => exact htask t
  | connectEnds t result => exact htask t
  | exchanged t again => exact htask t
  | drop t => exact htask t
  | disconnectEnds t result => exact htask t

theorem linkInv_start (now : ℕ) : LinkInv (start now) := by
  have hnobody : ∀ t a p, ¬ (start now).At t a p := by
    rintro t a p ⟨work, h⟩
    simp [start] at h
  refine ⟨Slots.slotsInv_start now, ⟨?_, ?_, ?_⟩, ?_, ⟨by simp [start], by simp [start]⟩⟩
  · exact fun t a p hat => absurd hat (hnobody t a p)
  · exact fun t _ a _ p _ _ hat => absurd hat (hnobody t a p)
  · intro c caller hcaller
    simp [start, Slots.start] at hcaller
  · intro a
    refine ⟨⟨?_, ?_, by simp [start], ?_, ?_⟩, by simp [start]⟩
    · simp only [hnobody, false_and, exists_false, iff_false]
      simp [start]
    · exact fun t _ p _ hat => absurd hat (hnobody t a p)
    · simp only [hnobody, exists_false, iff_false]
      simp [start]
    · exact fun t cancelling hat => absurd hat (hnobody t a _)

theorem linkInv_run (hconnect : ∀ e, e ≠ .returned → stack.afterConnect e = false)
    (hdisconnect : ∀ e, stack.afterDisconnect e = false) (now : ℕ) (acts : List LinkAct) :
    LinkInv (Runs.run (step stack) (start now) acts) :=
  Runs.run_invariant (P := fun _ _ => True) (fun _ a h _ => h.step hconnect hdisconnect a)
    (linkInv_start now) (Runs.Along.of_forall (R := fun _ => True) (fun _ _ => trivial))

/-! ## What the link promises -/

/-- The task waits for the lock of its device, or for a slot that no timer of a hold-off is to
bring. -/
def Waits (s : Host) (t : ℕ) : Prop :=
  (∃ a cancelling, s.At t a (.turn .pending cancelling)) ∨
    ∃ a c urgent cancelling, s.At t a (.slot c) ∧
      s.gate.callers[c]? = some (.waiting urgent .pending cancelling) ∧
        s.gate.heldOffUntil ∉ s.gate.timers

/-- `k` is past the lock that `t` waits for, or is the one to go on from its queue. -/
def HasTurn (s : Host) (k t : ℕ) : Prop :=
  ∃ a cancelling p, s.At t a (.turn .pending cancelling) ∧ s.At k a p ∧
    (p.caller ≠ none ∨ ∃ future cancelling, p = .turn future cancelling ∧ future ≠ .pending)

/-- `k` has a slot, and `t` waits for one. -/
def HasSlot (s : Host) (k t : ℕ) : Prop :=
  ∃ a c b p j caller, s.At t a (.slot c) ∧ s.At k b p ∧ p.caller = some j ∧
    s.gate.callers[j]? = some caller ∧ caller.holdsSlot = true

/-- Nothing is kept by a task that is out, and no set of tasks waits for one another. -/
structure Unstuck (s : Host) : Prop where
  counted : s.gate.inFlight = s.gate.callers.countP Caller.holdsSlot
  slotOwned : ∀ c caller, s.gate.callers[c]? = some caller → caller.holdsSlot = true →
    ∃ t a p, s.At t a p ∧ p.caller = some c
  turnOwned : ∀ a, (s.locks a).locked = true → ∃ t p, s.At t a p ∧ p.caller ≠ none
  notStuck : ∀ T : Set ℕ, ¬ WaitFor.Stuck s.Waits (fun k t => s.HasTurn k t ∨ s.HasSlot k t) T

/-- One connection a device as well, and none without a slot. -/
structure OneCentral (s : Host) : Prop extends Unstuck s where
  perDevice : ∀ a, (s.links.filter fun l => l.2 = a).length ≤ 1
  withinSlots : s.links.length ≤ s.gate.inFlight

theorem inside_of_linked (h : p.linked = true) : ∃ c stage, p = .inside c stage := by
  cases p with
  | turn future cancelling => simp [Phase.linked] at h
  | slot caller => simp [Phase.linked] at h
  | inside caller stage => exact ⟨caller, stage, rfl⟩
  | ended => simp [Phase.linked] at h

theorem LinkInv.perDevice (h : LinkInv s) (a : String) :
    (s.links.filter fun l => l.2 = a).length ≤ 1 := by
  have hnodup : ((s.links.filter fun l => l.2 = a).map Prod.fst).Nodup :=
    h.links.nodup.sublist (List.Sublist.map _ List.filter_sublist)
  have hpast : ∀ l ∈ s.links.filter fun l => l.2 = a, ∃ p, s.At l.1 a p ∧ p.caller ≠ none := by
    intro l hl
    obtain ⟨hmem, ha⟩ := List.mem_filter.mp hl
    obtain ⟨p, hat, hp⟩ := h.links.owner l hmem
    obtain ⟨c, stage, rfl⟩ := inside_of_linked hp
    exact ⟨_, of_decide_eq_true ha ▸ hat, by simp [Phase.caller]⟩
  rcases hlinks : s.links.filter fun l => l.2 = a with _ | ⟨l, _ | ⟨l', rest⟩⟩
  · simp [hlinks]
  · simp [hlinks]
  · rw [hlinks] at hnodup hpast
    obtain ⟨p, hat, hp⟩ := hpast l (by simp)
    obtain ⟨p', hat', hp'⟩ := hpast l' (by simp)
    have hsame := (h.locks a).turn l.1 l'.1 p p' hat hat' hp hp'
    simp [hsame] at hnodup

/-- Each open connection is under a task with a slot of its own. -/
theorem LinkInv.withinSlots (h : LinkInv s) : s.links.length ≤ s.gate.inFlight := by
  let slotOf : ℕ × String → Option ℕ := fun l => (s.phaseOf l.1).bind Phase.caller
  have hslot : ∀ l ∈ s.links, ∃ a p c, s.At l.1 a p ∧ slotOf l = some c ∧ p.caller = some c ∧
      s.gate.callers[c]? = some .holding := by
    intro l hl
    obtain ⟨p, hat, hp⟩ := h.links.owner l hl
    obtain ⟨c, stage, rfl⟩ := inside_of_linked hp
    refine ⟨l.2, _, c, hat, ?_, rfl, h.callers.fits l.1 l.2 _ hat⟩
    show (s.phaseOf l.1).bind Phase.caller = some c
    rw [hat.phaseOf]
    rfl
  have hnodup : (s.links.map slotOf).Nodup := by
    have hfst : s.links.Pairwise fun l l' => l.1 ≠ l'.1 := List.pairwise_map.mp h.links.nodup
    refine List.pairwise_map.mpr (hfst.imp_of_mem ?_)
    intro l l' hl hl' hne hsame
    obtain ⟨a, p, c, hat, hc, hpc, -⟩ := hslot l hl
    obtain ⟨a', p', c', hat', hc', hpc', -⟩ := hslot l' hl'
    obtain rfl : c = c' := Option.some.inj (hc.symm.trans (hsame.trans hc'))
    exact hne (h.callers.distinct l.1 l'.1 a a' p p' c hat hat' hpc hpc')
  have hsubset : s.links.map slotOf ⊆ (s.gate.callers.findIdxs Caller.holdsSlot).map some := by
    intro x hx
    obtain ⟨l, hl, rfl⟩ := List.mem_map.mp hx
    obtain ⟨a, p, c, -, hc, -, hholding⟩ := hslot l hl
    obtain ⟨hlt, hget⟩ := List.getElem?_eq_some_iff.mp hholding
    rw [hc]
    refine List.mem_map_of_mem (List.mem_findIdxs_iff_exists_getElem_pos.mpr ⟨hlt, ?_⟩)
    rw [hget]
    rfl
  have hle := (hnodup.subperm hsubset).length_le
  rwa [List.length_map, List.length_map, List.length_findIdxs, ← h.gate.count] at hle

theorem LinkInv.notStuck (h : LinkInv s) (T : Set ℕ) :
    ¬ WaitFor.Stuck s.Waits (fun k t => s.HasTurn k t ∨ s.HasSlot k t) T := by
  apply WaitFor.not_stuck_of_rank fun t => ((s.phaseOf t).map Phase.rank).getD 0
  -- who waits for the lock waits for its holder, or for the first waiter, who is awake;
  -- who waits for a slot waits for a holder of one, past the lock
  rintro t (⟨a, cancelling, hat⟩ | ⟨a, c, urgent, cancelling, hat, hcaller, htimer⟩)
  · simp only [hat.phaseOf, Option.map_some, Option.getD_some]
    cases hlocked : (s.locks a).locked with
    | true =>
        obtain ⟨k, p, hk, hp⟩ := (h.locks a).locked.mp hlocked
        refine ⟨k, Or.inl ⟨a, cancelling, p, hat, hk, Or.inl hp⟩, fun _ => ?_⟩
        rw [hk.phaseOf, Option.map_some, Option.getD_some]
        cases p with
        | turn future cancelling => exact absurd rfl hp
        | slot caller => exact Nat.zero_lt_one
        | inside caller stage => exact Nat.zero_lt_one
        | ended => exact Nat.zero_lt_one
    | false =>
        have hmem : t ∈ (s.locks a).waiters := ((h.locks a).waiters t).mpr ⟨_, _, hat⟩
        obtain ⟨k, rest, hwaiters⟩ := List.exists_cons_of_ne_nil (List.ne_nil_of_mem hmem)
        have hk : k ∈ (s.locks a).waiters := by rw [hwaiters]; exact List.mem_cons_self
        obtain ⟨future, cancelling', hk⟩ := ((h.locks a).waiters k).mp hk
        have hawake : future ≠ .pending := by
          rintro rfl
          exact (h.locks a).head hlocked k (by rw [hwaiters]; rfl) cancelling' hk
        refine ⟨k, Or.inl ⟨a, cancelling, _, hat, hk, Or.inr ⟨_, _, rfl, hawake⟩⟩, ?_⟩
        rintro (⟨b, cancelling'', hk'⟩ | ⟨b, c, urgent, cancelling'', hk', -⟩)
        · obtain ⟨-, hsame⟩ := hk.unique hk'
          simp only [Phase.turn.injEq] at hsame
          exact absurd hsame.1 hawake
        · simpa using (hk.unique hk').2
  · have hroom : s.gate.limit ≤ s.gate.inFlight := by
      obtain ⟨-, hfull | hpending⟩ := h.gate.gateKept.waiters c urgent cancelling hcaller
      · exact hfull
      · exact absurd hpending htimer
    have hlimit := Slots.one_le_lowest h.gate.asked
    rw [← h.gate.limit] at hlimit
    have hpos : 0 < s.gate.callers.countP Caller.holdsSlot := by
      rw [← h.gate.count]
      omega
    obtain ⟨caller, hmem, hholds⟩ := List.countP_pos_iff.mp hpos
    obtain ⟨j, hj⟩ := List.getElem?_of_mem hmem
    have hlive : caller ≠ .gone := by
      rintro rfl
      simp [Caller.holdsSlot] at hholds
    obtain ⟨k, b, p, hk, hp⟩ := h.callers.owner j caller hj hlive
    refine ⟨k, Or.inr ⟨a, c, b, p, j, caller, hat, hk, hp, hj, hholds⟩, ?_⟩
    rintro (⟨b', cancelling', hk'⟩ | ⟨b', c', urgent', cancelling', hk', hcaller', -⟩)
    · rw [(hk.unique hk').2] at hp
      simp [Phase.caller] at hp
    · rw [(hk.unique hk').2] at hp
      obtain rfl : c' = j := Option.some.inj hp
      obtain rfl := Option.some.inj (hj.symm.trans hcaller')
      simp [Caller.holdsSlot] at hholds

theorem LinkInv.oneCentral (h : LinkInv s) : OneCentral s where
  counted := h.gate.count
  slotOwned c caller hcaller hholds := by
    apply h.callers.owner c caller hcaller
    rintro rfl
    simp [Caller.holdsSlot] at hholds
  turnOwned a := (h.locks a).locked.mp
  notStuck := h.notStuck
  perDevice := h.perDevice
  withinSlots := h.withinSlots

/-! ## Connections the stack leaves open

A stack may give up on a connection that is still there.  `_link` gives the slot and the lock back
all the same: what stays open is seen by `links` alone. -/

/-- The act ends a call of the stack that leaves a connection open. -/
def leavesOpen (stack : BluetoothStack) (s : Host) (act : LinkAct) : Bool :=
  match act with
  | .connectEnds t result =>
      match s.phaseOf t with
      | some (.inside _ (.connecting _)) =>
          decide (result ≠ .returned) && stack.afterConnect result
      | _ => false
  | .disconnectEnds t result =>
      match s.phaseOf t with
      | some (.inside _ (.disconnecting _ _)) => stack.afterDisconnect result
      | _ => false
  | .cancel t =>
      match s.phaseOf t with
      | some (.inside _ (.connecting _)) => stack.afterConnect .cancelled
      | some (.inside _ (.disconnecting _ _)) => stack.afterDisconnect .cancelled
      | _ => false
  | _ => false

/-- A stack that leaves nothing open. -/
def tidy : BluetoothStack := ⟨fun _ => false, fun _ => false⟩

/-- The same but for the open connections. -/
def Parallel (s s' : Host) : Prop := ∃ links, s' = { s with links := links }

section Parallel

variable {stack : BluetoothStack}

theorem Parallel.setPhase (h : Parallel s s') (t : ℕ) (p : Phase) :
    Parallel (s.setPhase t p) (s'.setPhase t p) := by
  obtain ⟨links, rfl⟩ := h
  exact ⟨links, rfl⟩

theorem Parallel.setLock (h : Parallel s s') (a : String) (lock : DeviceLock) :
    Parallel (s.setLock a lock) (s'.setLock a lock) := by
  obtain ⟨links, rfl⟩ := h
  exact ⟨links, rfl⟩

theorem Parallel.withGate (h : Parallel s s') (act : SlotsAct) :
    Parallel { s with gate := s.gate.step act } { s' with gate := s'.gate.step act } := by
  obtain ⟨links, rfl⟩ := h
  exact ⟨links, rfl⟩

theorem Parallel.withLinks (h : Parallel s s') (links links' : List (ℕ × String)) :
    Parallel { s with links := links } { s' with links := links' } := by
  obtain ⟨_, rfl⟩ := h
  exact ⟨links', rfl⟩

theorem Parallel.locks (h : Parallel s s') : s'.locks = s.locks := by
  obtain ⟨_, rfl⟩ := h
  rfl

theorem Parallel.gate (h : Parallel s s') : s'.gate = s.gate := by
  obtain ⟨_, rfl⟩ := h
  rfl

theorem Parallel.tasks (h : Parallel s s') : s'.tasks = s.tasks := by
  obtain ⟨_, rfl⟩ := h
  rfl

theorem Parallel.phaseOf (h : Parallel s s') (t : ℕ) : s'.phaseOf t = s.phaseOf t := by
  unfold Host.phaseOf
  rw [h.tasks]

theorem Parallel.wakeUpFirst (h : Parallel s s') (a : String) :
    Parallel (s.wakeUpFirst a) (s'.wakeUpFirst a) := by
  unfold Host.wakeUpFirst
  rw [h.locks]
  split
  · exact h
  · rw [h.phaseOf]
    split
    · exact h.setPhase _ _
    · exact h

theorem Parallel.giveTurn (h : Parallel s s') (a : String) :
    Parallel (s.giveTurn a) (s'.giveTurn a) := by
  unfold Host.giveTurn
  rw [h.locks]
  exact (h.setLock a _).wakeUpFirst a

theorem Parallel.takeTurn (h : Parallel s s') (t : ℕ) (a : String) (work : Work) :
    Parallel (s.takeTurn t a work) (s'.takeTurn t a work) := by
  obtain ⟨links, rfl⟩ := h
  exact ⟨links, rfl⟩

theorem Parallel.resumeTurn (h : Parallel s s') (t : ℕ) (task : LinkTask) (granted : Bool) :
    Parallel (s.resumeTurn t task granted) (s'.resumeTurn t task granted) := by
  unfold Host.resumeTurn
  rw [h.locks]
  dsimp only
  have hout := h.setLock task.address
    { s.locks task.address with waiters := (s.locks task.address).waiters.erase t }
  split
  · exact hout.takeTurn _ _ _
  · split
    · exact hout.setPhase _ _
    · exact (hout.setPhase _ _).wakeUpFirst _

theorem Parallel.ite {c : Prop} [Decidable c] {u u' v v' : Host} (hu : Parallel u u')
    (hv : Parallel v v') : Parallel (if c then u else v) (if c then u' else v') := by
  split
  · exact hu
  · exact hv

theorem Parallel.enter (h : Parallel s s') (a : String) (work : Work) :
    Parallel (s.enter a work) (s'.enter a work) := by
  obtain ⟨links, rfl⟩ := h
  have hjoined : Parallel { s with tasks := s.tasks ++ [⟨a, work, .turn .pending false⟩] }
      { s with tasks := s.tasks ++ [⟨a, work, .turn .pending false⟩], links := links } :=
    ⟨links, rfl⟩
  exact Parallel.ite (hjoined.takeTurn _ a work) (hjoined.setLock a _)

theorem Parallel.leave (h : Parallel s s') (t c : ℕ) (a : String) :
    Parallel (s.leave t c a) (s'.leave t c a) :=
  ((h.withGate (.release c)).setPhase t .ended).giveTurn a

theorem Parallel.inGate (h : Parallel s s') (t c : ℕ) (a : String) (act : SlotsAct) :
    Parallel (s.inGate t c a act) (s'.inGate t c a act) := by
  have hgate := h.withGate act
  unfold Host.inGate
  dsimp only
  rw [h.gate]
  rw [h.gate] at hgate
  split
  · exact hgate.setPhase _ _
  · exact (hgate.setPhase _ _).giveTurn _
  · exact hgate

theorem Parallel.connectEnds (h : Parallel s s') (t c attempt : ℕ) (a : String)
    (result : CallEnd) :
    Parallel (connectEnds stack s t c attempt a result)
      (connectEnds tidy s' t c attempt a result) := by
  have hout : Parallel
      (if stack.afterConnect result then { s with links := s.links ++ [(t, a)] } else s)
      (if tidy.afterConnect result then { s' with links := s'.links ++ [(t, a)] } else s') := by
    show Parallel _ s'
    split
    · obtain ⟨links, rfl⟩ := h
      exact ⟨links, rfl⟩
    · exact h
  cases result with
  | returned => exact (h.withLinks _ _).setPhase _ _
  | raised => exact hout.leave _ _ _
  | outOfSlots => exact (hout.withGate (.holdOff SLOT_COOLDOWN)).leave _ _ _
  | cancelled => exact hout.leave _ _ _

theorem Parallel.closeLink (h : Parallel s s') (t : ℕ) (stays stays' : Bool) :
    Parallel (s.closeLink t stays) (s'.closeLink t stays') := by
  obtain ⟨links, rfl⟩ := h
  unfold Host.closeLink
  split <;> split <;> exact ⟨_, rfl⟩

theorem Parallel.disconnectEnds (h : Parallel s s') (t c attempt : ℕ) (again : Bool) (a : String)
    (result : CallEnd) :
    Parallel (disconnectEnds stack s t c attempt again a result)
      (disconnectEnds tidy s' t c attempt again a result) := by
  unfold Host.disconnectEnds
  dsimp only
  split
  · exact (h.closeLink t _ _).setPhase _ _
  · exact (h.closeLink t _ _).leave _ _ _

theorem Parallel.cancel (h : Parallel s s') (t : ℕ) (task : LinkTask) :
    Parallel (cancel stack s t task) (cancel tidy s' t task) := by
  unfold Host.cancel
  split
  · exact h.setPhase _ _
  · exact h.setPhase _ _
  · exact h.inGate _ _ _ _
  · exact h.connectEnds _ _ _ _ _
  · exact h.setPhase _ _
  · exact h.disconnectEnds _ _ _ _ _ _
  · exact h

theorem Parallel.taskStep (h : Parallel s s') (t : ℕ) (task : LinkTask) (act : LinkAct) :
    Parallel (taskStep stack s t task act) (taskStep tidy s' t task act) := by
  cases act with
  | resume _ =>
      simp only [Host.taskStep]
      split
      · exact h.resumeTurn _ _ _
      · exact h.resumeTurn _ _ _
      · exact h.inGate _ _ _ _
      · exact h
  | cancel _ => exact h.cancel t task
  | standDown _ =>
      simp only [Host.taskStep]
      split
      · exact h.leave _ _ _
      · exact h
  | connect _ =>
      simp only [Host.taskStep]
      split
      · exact h.setPhase _ _
      · exact h
  | connectEnds _ result =>
      simp only [Host.taskStep]
      split
      · exact h.connectEnds _ _ _ _ _
      · exact h
  | exchanged _ again =>
      simp only [Host.taskStep]
      split
      · exact h.setPhase _ _
      · exact h.setPhase _ _
      · exact h
  | drop _ => exact h.closeLink t _ _
  | disconnectEnds _ result =>
      simp only [Host.taskStep]
      split
      · exact h.disconnectEnds _ _ _ _ _ _
      · exact h
  | register _ _ | withdraw _ | pass _ | fire _ | enter _ _ => exact h

/-- Whatever a stack leaves open, the locks, the gate and the tasks are those over a tidy one. -/
theorem Parallel.step (h : Parallel s s') (act : LinkAct) :
    Parallel (step stack s act) (step tidy s' act) := by
  have htask : ∀ t, Parallel (s.tasks[t]?.elim s fun task => Host.taskStep stack s t task act)
      (s'.tasks[t]?.elim s' fun task => Host.taskStep tidy s' t task act) := by
    intro t
    rw [h.tasks]
    cases s.tasks[t]? with
    | none => exact h
    | some task => exact h.taskStep t task act
  cases act with
  | register _ _ | withdraw _ | pass _ | fire _ => exact h.withGate _
  | enter a work => exact h.enter a work
  | resume t | cancel t | standDown t | connect t | connectEnds t _ | exchanged t _ | drop t
  | disconnectEnds t _ => exact htask t

theorem Parallel.run (h : Parallel s s') (acts : List LinkAct) :
    Parallel (Runs.run (Host.step stack) s acts) (Runs.run (Host.step tidy) s' acts) := by
  induction acts generalizing s s' with
  | nil => exact h
  | cons act rest ih => exact ih (h.step act)

/-- None of this is about the open connections. -/
theorem Parallel.unstuck (h : Parallel s s') (hs' : Unstuck s') : Unstuck s := by
  obtain ⟨links, rfl⟩ := h
  exact ⟨hs'.counted, hs'.slotOwned, hs'.turnOwned, hs'.notStuck⟩

end Parallel

theorem connectEnds_tidy {stack : BluetoothStack} {result : CallEnd}
    (h : result ≠ .returned → stack.afterConnect result = false) (t c attempt : ℕ) (a : String) :
    Host.connectEnds stack s t c attempt a result =
      Host.connectEnds tidy s t c attempt a result := by
  cases result with
  | returned => rfl
  | raised | outOfSlots | cancelled =>
      simp only [Host.connectEnds, h (by simp)]
      rfl

theorem disconnectEnds_tidy {stack : BluetoothStack} {result : CallEnd}
    (h : stack.afterDisconnect result = false) (t c attempt : ℕ) (again : Bool) (a : String) :
    Host.disconnectEnds stack s t c attempt again a result =
      Host.disconnectEnds tidy s t c attempt again a result := by
  unfold Host.disconnectEnds
  rw [h]
  rfl

/-- An act that leaves nothing open is one over a tidy stack. -/
theorem step_tidy {stack : BluetoothStack} {act : LinkAct}
    (h : leavesOpen stack s act = false) : step stack s act = step tidy s act := by
  have htask : ∀ t, (∀ task, s.phaseOf t = some task.phase →
      Host.taskStep stack s t task act = Host.taskStep tidy s t task act) →
      (s.tasks[t]?.elim s fun task => Host.taskStep stack s t task act) =
        s.tasks[t]?.elim s fun task => Host.taskStep tidy s t task act := by
    intro t hsame
    cases hget : s.tasks[t]? with
    | none => rfl
    | some task => exact hsame task (by rw [Host.phaseOf, hget]; rfl)
  cases act with
  | cancel t =>
      refine htask t fun task hphase => ?_
      simp only [leavesOpen, hphase] at h
      simp only [Host.taskStep, Host.cancel]
      split
      · rfl
      · rfl
      · rfl
      · rename_i hconnecting
        simp only [hconnecting] at h
        exact connectEnds_tidy (fun _ => h) _ _ _ _
      · rfl
      · rename_i hdisconnecting
        simp only [hdisconnecting] at h
        exact disconnectEnds_tidy h _ _ _ _ _
      · rfl
  | connectEnds t result =>
      refine htask t fun task hphase => ?_
      simp only [leavesOpen, hphase] at h
      simp only [Host.taskStep]
      split
      · rename_i hconnecting
        simp only [hconnecting, Bool.and_eq_false_iff, decide_eq_false_iff_not, not_not] at h
        exact connectEnds_tidy (fun hne => h.resolve_left hne) _ _ _ _
      · rfl
  | disconnectEnds t result =>
      refine htask t fun task hphase => ?_
      simp only [leavesOpen, hphase] at h
      simp only [Host.taskStep]
      split
      · rename_i hdisconnecting
        simp only [hdisconnecting] at h
        exact disconnectEnds_tidy h _ _ _ _ _
      · rfl
  | register _ _ | withdraw _ | pass _ | fire _ | enter _ _ | resume _ | standDown _ | connect _
  | exchanged _ _ | drop _ => rfl

theorem run_tidy {stack : BluetoothStack} {acts : List LinkAct}
    (h : Runs.Along (step stack) (fun s act => leavesOpen stack s act = false) s acts) :
    Runs.run (step stack) s acts = Runs.run (step tidy) s acts := by
  induction acts generalizing s with
  | nil => rfl
  | cons act rest ih =>
      rw [Runs.run_cons, Runs.run_cons, ← step_tidy h.1]
      exact ih h.2

/-- Every run, over any Bluetooth stack: both locks are given back and nobody is stuck, and as long
as the stack leaves no connection open there is one a device and none without a slot. -/
theorem one_central_and_no_deadlock (stack : BluetoothStack) (now : ℕ) (acts : List LinkAct) :
    Unstuck (Runs.run (step stack) (start now) acts) ∧
      (Runs.Along (step stack) (fun s act => leavesOpen stack s act = false) (start now) acts →
        OneCentral (Runs.run (step stack) (start now) acts)) := by
  have htidy : LinkInv (Runs.run (step tidy) (start now) acts) :=
    linkInv_run (fun _ _ => rfl) (fun _ => rfl) now acts
  have hstart : Parallel (start now) (start now) := ⟨[], rfl⟩
  refine ⟨(hstart.run acts).unstuck htidy.oneCentral.toUnstuck, fun hclosed => ?_⟩
  rw [run_tidy hclosed]
  exact htidy.oneCentral

/-- Two commands for one device and a read pass for another share one slot. -/
theorem one_central_and_no_deadlock_sample :
    OneCentral (Runs.run (step ⟨fun e => e = .raised, fun e => e = .cancelled⟩) (start 0)
      [.register "A" 1, .enter "A" .command, .enter "A" .command, .enter "B" .readPass, .resume 0,
        .connect 0, .connectEnds 0 .returned, .cancel 0, .disconnectEnds 0 .returned]) :=
  (one_central_and_no_deadlock _ 0 _).2 (by decide +kernel)

/-- A command is cancelled while it disconnects, and the stack leaves its connection open.  The
slot and the lock are free all the same, and the next command connects as well. -/
theorem two_connections_after_cancelled_disconnect :
    ∃ s, s = Runs.run (step ⟨fun _ => false, fun e => e = .cancelled⟩) (start 0)
        [.register "A" 1, .enter "A" .command, .enter "A" .command, .resume 0, .connect 0,
          .connectEnds 0 .returned, .exchanged 0 false, .cancel 0, .resume 1, .resume 1,
          .connect 1, .connectEnds 1 .returned] ∧
      s.links = [(0, "A"), (1, "A")] ∧ s.gate.inFlight = 1 ∧ ¬ OneCentral s := by
  refine ⟨_, rfl, by decide +kernel, by decide +kernel, fun h => ?_⟩
  have hone := h.perDevice "A"
  revert hone
  decide +kernel

end BTHomeWritable.Receiver.Host
