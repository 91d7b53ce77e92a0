import BTHomeWritable.Lib.Runs
import BTHomeWritable.Wire

/-!
# What an entity shows

`async_apply` of a stateful entity, the value it lays over the coordinator's, and
the counter that takes it away again.  What the coordinator knows of the entry
and whether it still declares it are the environment's.  A call that is cancelled
goes by both ways out of `async_apply` that count it: a `CancelledError` is no
`Exception`.  `calls` records the calls that got past the check, and how each
ended; no step reads more of it than that a call still waits.

`OverlayInv` says that the counter counts the calls that are still `unsettled`, and
that the newest value is laid over as long as it is not nought.  What is shown
follows from that in two lemmas, for a state with an unsettled call and for one
without.  `shows_iff` compares it with what should be shown (`Shows`);
`cancelled_value_stays` is an entity whose counter never comes down.
-/

namespace BTHomeWritable.Receiver

/-- How the await of `async_write` is over: superseded calls return. -/
inductive Exit where
  | returned
  | raised
  | cancelled
  deriving DecidableEq

structure EntityCall where
  value : Bytes
  ended : Option Exit
  deriving DecidableEq

structure Entity where
  /-- `_coalesce`, which events turn off. -/
  coalesce : Bool
  inFlight : Option Bytes
  writesInFlight : ℕ
  /-- `coordinator.still_declared` of this entity. -/
  stillDeclared : Bool
  /-- `coordinator.value_of` of its entry. -/
  known : Option Bytes
  calls : List EntityCall

inductive EntityAct where
  | declare (stillDeclared : Bool)
  | learn (known : Option Bytes)
  | apply (value : Bytes)
  | ends (call : ℕ) (exit : Exit)

namespace EntityCall

def waits (c : EntityCall) : Bool := c.ended.isNone

def wasCancelled (c : EntityCall) : Bool := c.ended = some .cancelled

/-- `_settled` has not been called for it. -/
def unsettled (c : EntityCall) : Bool := c.waits || c.wasCancelled

end EntityCall

namespace Entity

def start (coalesce stillDeclared : Bool) (known : Option Bytes) : Entity :=
  ⟨coalesce, none, 0, stillDeclared, known, []⟩

/-- `_value`. -/
def value (s : Entity) : Option Bytes :=
  match s.inFlight with
  | some value => some value
  | none => s.known

/-- `async_apply`, up to its await. -/
def apply (s : Entity) (value : Bytes) : Entity :=
  if !s.stillDeclared then s  -- raised before anything is shown
  else
    { s with
      inFlight := if s.coalesce then some value else none
      writesInFlight := s.writesInFlight + 1
      calls := s.calls ++ [⟨value, none⟩] }

/-- `_settled`. -/
def settled (s : Entity) : Entity :=
  let s : Entity := { s with writesInFlight := s.writesInFlight - 1 }
  if s.writesInFlight = 0 then { s with inFlight := none } else s

def step (s : Entity) : EntityAct → Entity
  | .declare stillDeclared => { s with stillDeclared := stillDeclared }
  | .learn known => { s with known := known }
  | .apply value => s.apply value
  | .ends i exit =>
      match s.calls[i]? with
      | some ⟨value, none⟩ =>
          let s : Entity := { s with calls := s.calls.set i ⟨value, some exit⟩ }
          match exit with
          | .returned | .raised => s.settled
          | .cancelled => s
      | _ => s

/-- The value of the newest call. -/
def newest (s : Entity) : Option Bytes := s.calls.getLast?.map EntityCall.value

/-! ## Counting -/

theorem countP_set {α : Type} (p : α → Bool) {l : List α} {i : ℕ} {old : α} (h : l[i]? = some old)
    (new : α) : (l.set i new).countP p + (if p old then 1 else 0) =
      l.countP p + (if p new then 1 else 0) := by
  induction l generalizing i with
  | nil => simp at h
  | cons x rest ih =>
      cases i with
      | zero =>
          obtain rfl : x = old := by simpa using h
          simp only [List.set_cons_zero, List.countP_cons]
          omega
      | succ i =>
          have hrest := ih (by simpa using h)
          simp only [List.set_cons_succ, List.countP_cons]
          omega

theorem newest_set {l : List EntityCall} {i : ℕ} {old : EntityCall} (h : l[i]? = some old)
    (exit : Option Exit) :
    (l.set i ⟨old.value, exit⟩).getLast?.map EntityCall.value =
      l.getLast?.map EntityCall.value := by
  induction l generalizing i with
  | nil => simp at h
  | cons x rest ih =>
      cases i with
      | zero =>
          obtain rfl : x = old := by simpa using h
          cases rest with
          | nil => rfl
          | cons y rest => simp [List.set_cons_zero]
      | succ i =>
          have hrest : rest[i]? = some old := by simpa using h
          cases rest with
          | nil => simp at hrest
          | cons y rest =>
              have hlast := ih hrest
              cases i with
              | zero => simpa using hlast
              | succ i => simpa using hlast

/-! ## The overlay -/

/-- The counter counts what is not settled, and the newest value is laid over as long as it is not
nought. -/
structure OverlayInv (s : Entity) : Prop where
  coalesce : s.coalesce = true
  count : s.writesInFlight = s.calls.countP EntityCall.unsettled
  laid : 0 < s.writesInFlight → s.inFlight = s.newest
  off : s.writesInFlight = 0 → s.inFlight = none

variable {s : Entity}

theorem OverlayInv.apply (h : OverlayInv s) (value : Bytes) : OverlayInv (s.apply value) := by
  unfold Entity.apply
  split
  · exact h
  · refine ⟨h.coalesce, ?_, ?_, by simp⟩
    · have hone : [(⟨value, none⟩ : EntityCall)].countP EntityCall.unsettled = 1 := rfl
      rw [List.countP_append, hone, h.count]
    · intro _
      simp [newest, h.coalesce]

theorem OverlayInv.settled {calls : List EntityCall} (h : OverlayInv s)
    (hcount : calls.countP EntityCall.unsettled + 1 = s.calls.countP EntityCall.unsettled)
    (hnewest : calls.getLast?.map EntityCall.value = s.newest) :
    OverlayInv { s with calls := calls }.settled := by
  have hwrites : s.writesInFlight - 1 = calls.countP EntityCall.unsettled := by
    rw [h.count]
    omega
  unfold Entity.settled
  simp only
  split
  · rename_i hzero
    exact ⟨h.coalesce, hwrites, fun hpos => absurd hzero (Nat.ne_of_gt hpos), fun _ => rfl⟩
  · rename_i hpos
    refine ⟨h.coalesce, hwrites, fun _ => ?_, fun hzero => absurd hzero hpos⟩
    have hbefore : 0 < s.writesInFlight := by omega
    exact (h.laid hbefore).trans hnewest.symm

theorem OverlayInv.ends (h : OverlayInv s) {i : ℕ} {value : Bytes}
    (hcall : s.calls[i]? = some ⟨value, none⟩) (exit : Exit) :
    OverlayInv (s.step (.ends i exit)) := by
  have hcount := countP_set EntityCall.unsettled hcall ⟨value, some exit⟩
  have hnewest := newest_set hcall (some exit)
  have hwaits : (⟨value, none⟩ : EntityCall).unsettled = true := rfl
  rw [if_pos hwaits] at hcount
  simp only [step, hcall]
  cases exit with
  | cancelled =>
      -- the counter is left as it is, and so is what it counts
      have hstays : (⟨value, some Exit.cancelled⟩ : EntityCall).unsettled = true := rfl
      rw [if_pos hstays] at hcount
      refine ⟨h.coalesce, ?_, fun hpos => (h.laid hpos).trans hnewest.symm, h.off⟩
      show s.writesInFlight = (s.calls.set i _).countP EntityCall.unsettled
      rw [h.count]
      omega
  | returned | raised =>
      apply h.settled _ hnewest
      simpa [EntityCall.unsettled, EntityCall.waits, EntityCall.wasCancelled] using hcount

theorem OverlayInv.step (h : OverlayInv s) (a : EntityAct) : OverlayInv (s.step a) := by
  cases a with
  | declare stillDeclared => exact ⟨h.coalesce, h.count, h.laid, h.off⟩
  | learn known => exact ⟨h.coalesce, h.count, h.laid, h.off⟩
  | apply value => exact h.apply value
  | ends i exit =>
      by_cases hcall : ∃ value, s.calls[i]? = some ⟨value, none⟩
      · obtain ⟨value, hcall⟩ := hcall
        exact h.ends hcall exit
      · simp only [Entity.step]
        split
        · rename_i value hsome
          exact absurd ⟨value, hsome⟩ hcall
        · exact h

theorem overlayInv_run (stillDeclared : Bool) (known : Option Bytes) (acts : List EntityAct) :
    OverlayInv (Runs.run step (start true stillDeclared known) acts) := by
  have hstep : ∀ s a, OverlayInv s → True → OverlayInv (step s a) := fun _ a h _ => h.step a
  have hinit : OverlayInv (start true stillDeclared known) :=
    ⟨rfl, rfl, fun hpos => absurd hpos (Nat.lt_irrefl 0), fun _ => rfl⟩
  have hany : Runs.Along step (fun _ _ => True) (start true stillDeclared known) acts :=
    Runs.Along.of_forall (fun _ _ => trivial)
  exact Runs.run_invariant hstep hinit hany

/-! ## What is shown -/

/-- The newest value while a call waits, and what the coordinator knows when none does. -/
structure Shows (s : Entity) : Prop where
  waiting : (∃ c ∈ s.calls, c.waits = true) → s.value = s.newest
  atRest : (∀ c ∈ s.calls, c.waits = false) → s.value = s.known

theorem OverlayInv.value_of_unsettled (h : OverlayInv s)
    (hunsettled : ∃ c ∈ s.calls, c.unsettled = true) : s.value = s.newest := by
  obtain ⟨c, hmem, hc⟩ := hunsettled
  have hpos : 0 < s.writesInFlight := by
    rw [h.count, List.countP_pos_iff]
    exact ⟨c, hmem, hc⟩
  have hlaid := h.laid hpos
  rw [value, hlaid]
  cases hnewest : s.newest with
  | some value => rfl
  | none =>
      have hcalls : s.calls = [] := by simpa [newest] using hnewest
      simp [hcalls] at hmem

theorem OverlayInv.value_of_settled (h : OverlayInv s)
    (hsettled : ∀ c ∈ s.calls, c.unsettled = false) : s.value = s.known := by
  have hzero : s.writesInFlight = 0 := by
    rw [h.count, List.countP_eq_zero]
    simpa using hsettled
  rw [value, h.off hzero]

/-- In every state reached the entity shows what it should exactly if a call waits, none was ever
cancelled, or the newest value is what is known. -/
theorem shows_iff (stillDeclared : Bool) (known : Option Bytes) (acts : List EntityAct) :
    let s := Runs.run step (start true stillDeclared known) acts
    Shows s ↔ (∃ c ∈ s.calls, c.waits = true) ∨ (∀ c ∈ s.calls, c.wasCancelled = false) ∨
      s.known = s.newest := by
  intro s
  have h : OverlayInv s := overlayInv_run stillDeclared known acts
  constructor
  · intro hshows
    by_cases hwaiting : ∃ c ∈ s.calls, c.waits = true
    · exact Or.inl hwaiting
    · by_cases hcancelled : ∃ c ∈ s.calls, c.wasCancelled = true
      · obtain ⟨c, hmem, hc⟩ := hcancelled
        have hnewest : s.value = s.newest :=
          h.value_of_unsettled ⟨c, hmem, by simp [EntityCall.unsettled, hc]⟩
        have hknown : s.value = s.known := by
          apply hshows.atRest
          simpa using hwaiting
        exact Or.inr (Or.inr (hknown.symm.trans hnewest))
      · right
        left
        simpa using hcancelled
  · intro hcases
    refine ⟨?_, ?_⟩
    · rintro ⟨c, hmem, hc⟩
      exact h.value_of_unsettled ⟨c, hmem, by simp [EntityCall.unsettled, hc]⟩
    · intro hrest
      rcases hcases with ⟨c, hmem, hc⟩ | hnone | hsame
      · simp [hrest c hmem] at hc
      · apply h.value_of_settled
        intro c hmem
        simp [EntityCall.unsettled, hrest c hmem, hnone c hmem]
      · by_cases hunsettled : ∃ c ∈ s.calls, c.unsettled = true
        · exact (h.value_of_unsettled hunsettled).trans hsame.symm
        · apply h.value_of_settled
          simpa using hunsettled

/-- The caller of the one command is cancelled, and the device is found to be at another value. -/
theorem cancelled_value_stays :
    ¬ Shows (Runs.run step (start true true none)
      [.apply [0x01], .ends 0 .cancelled, .learn (some [0x00])]) := by
  intro hshows
  exact absurd (hshows.atRest (by decide)) (by decide)

end Entity
end BTHomeWritable.Receiver
