import Mathlib.Data.Set.Basic

/-!
# Waiting for one another

A task waits for the tasks that can release what it asks for.  A set of tasks is
stuck when each of them waits and nobody outside the set can release what it
waits for.  Where the resources are taken in one order, a waiting task has among
those that can release what it waits for one that does not wait, or that waits
for a resource further along the order, so no set is stuck.
-/

namespace WaitFor

variable {τ : Type*}

/-- Each task of `T` waits, and only tasks of `T` can end its wait. -/
structure Stuck (waits : τ → Prop) (releases : τ → τ → Prop) (T : Set τ) : Prop where
  nonempty : T.Nonempty
  waits : ∀ t ∈ T, waits t
  closed : ∀ t ∈ T, ∀ k, releases k t → k ∈ T

variable {waits : τ → Prop} {releases : τ → τ → Prop} {T : Set τ}

/-- The position of what a task waits for in the acquisition order falls along some release. -/
theorem not_stuck_of_rank (rank : τ → ℕ)
    (hrank : ∀ t, waits t → ∃ k, releases k t ∧ (waits k → rank k < rank t)) :
    ¬ Stuck waits releases T := by
  intro hstuck
  obtain ⟨first, hfirst⟩ := hstuck.nonempty
  have hnone : ∀ (n : ℕ) (t : τ), rank t = n → t ∉ T := by
    intro n
    induction n using Nat.strong_induction_on with
    | _ n ih =>
        intro t ht hmem
        obtain ⟨k, hk, hlower⟩ := hrank t (hstuck.waits t hmem)
        have hkmem : k ∈ T := hstuck.closed t hmem k hk
        have hlt : rank k < n := ht ▸ hlower (hstuck.waits k hkmem)
        exact ih (rank k) hlt k rfl hkmem
  exact hnone (rank first) first rfl hfirst

end WaitFor
