import Mathlib.Data.List.Basic
import Mathlib.Data.List.Nodup

/-!
# Renaming the rows of a table one after another

Rows have identities that are all different.  Each row in turn becomes what it
wishes to be, unless another row has that identity by then.  If nobody wishes
to leave an identity that somebody else wishes to have, the order of the turns
does not matter for what can be said of the outcome: a wish was granted, or its
identity is another row's; and a second round changes nothing.
-/

namespace Renaming

variable {Row Id : Type*} [DecidableEq Id] (identity : Row → Id) (wish : Row → Option Row)

/-- The turn of the row at `i`. -/
def turn (rows : List Row) (i : ℕ) : List Row :=
  match rows[i]?.bind wish with
  | none => rows
  | some new => if identity new ∈ rows.map identity then rows else rows.set i new

/-- A round of turns. -/
def round (rows : List Row) (order : List ℕ) : List Row := order.foldl (turn identity wish) rows

/-- A wish is for another identity, and whoever has it has no wish. -/
structure Settling : Prop where
  moves : ∀ {row new}, wish row = some new → identity new ≠ identity row
  settled : ∀ {row new other}, wish row = some new → identity other = identity new →
    wish other = none

/-- Another row than the one at `i` has the identity. -/
def Taken (rows : List Row) (i : ℕ) (id : Id) : Prop :=
  ∃ j ≠ i, ∃ other, rows[j]? = some other ∧ identity other = id

variable {identity wish} {rows : List Row} {order : List ℕ} {i j : ℕ} {row new : Row}

/-! ## One turn -/

@[simp] theorem length_turn (rows : List Row) (i : ℕ) :
    (turn identity wish rows i).length = rows.length := by
  unfold turn
  split
  · rfl
  · split
    · rfl
    · rw [List.length_set]

theorem turn_of_none (h : rows[i]?.bind wish = none) : turn identity wish rows i = rows := by
  rw [turn, h]

theorem turn_of_taken (h : rows[i]?.bind wish = some new)
    (htaken : identity new ∈ rows.map identity) : turn identity wish rows i = rows := by
  rw [turn, h]
  exact if_pos htaken

theorem turn_of_free (h : rows[i]?.bind wish = some new)
    (hfree : identity new ∉ rows.map identity) : turn identity wish rows i = rows.set i new := by
  rw [turn, h]
  exact if_neg hfree

theorem getElem?_turn_ne (hij : j ≠ i) : (turn identity wish rows i)[j]? = rows[j]? := by
  unfold turn
  split
  · rfl
  · split
    · rfl
    · exact List.getElem?_set_ne (Ne.symm hij)

theorem nodup_turn (h : (rows.map identity).Nodup) :
    ((turn identity wish rows i).map identity).Nodup := by
  cases hwish : rows[i]?.bind wish with
  | none => rwa [turn_of_none hwish]
  | some new =>
      by_cases hfree : identity new ∈ rows.map identity
      · rwa [turn_of_taken hwish hfree]
      · rw [turn_of_free hwish hfree, List.map_set]
        exact h.set hfree

/-- A row without a wish stays as it is. -/
theorem getElem?_turn_settled (hrow : rows[j]? = some row) (hsettled : wish row = none) :
    (turn identity wish rows i)[j]? = some row := by
  by_cases hij : j = i
  · subst hij
    rw [turn_of_none (by rw [hrow, Option.bind_some, hsettled])]
    exact hrow
  · rw [getElem?_turn_ne hij]
    exact hrow

/-! ## A round -/

@[simp] theorem length_round (rows : List Row) (order : List ℕ) :
    (round identity wish rows order).length = rows.length := by
  induction order generalizing rows with
  | nil => rfl
  | cons i order ih => exact (ih _).trans (length_turn rows i)

theorem nodup_round (h : (rows.map identity).Nodup) :
    ((round identity wish rows order).map identity).Nodup := by
  induction order generalizing rows with
  | nil => exact h
  | cons i order ih => exact ih (nodup_turn h)

theorem getElem?_round_outside (hi : i ∉ order) :
    (round identity wish rows order)[i]? = rows[i]? := by
  induction order generalizing rows with
  | nil => rfl
  | cons j order ih =>
      rw [List.mem_cons, not_or] at hi
      exact (ih hi.2).trans (getElem?_turn_ne hi.1)

theorem getElem?_round_settled (hrow : rows[i]? = some row) (hsettled : wish row = none) :
    (round identity wish rows order)[i]? = some row := by
  induction order generalizing rows with
  | nil => exact hrow
  | cons j order ih => exact ih (getElem?_turn_settled hrow hsettled)

omit [DecidableEq Id] in
theorem taken_of_mem {id : Id} (hid : id ∈ rows.map identity) (hrow : rows[i]? = some row)
    (hne : id ≠ identity row) : Taken identity rows i id := by
  obtain ⟨other, hother, rfl⟩ := List.mem_map.mp hid
  obtain ⟨j, hj⟩ := List.getElem?_of_mem hother
  refine ⟨j, ?_, other, hj, rfl⟩
  rintro rfl
  rw [hrow] at hj
  exact hne (congrArg identity (Option.some.inj hj)).symm

omit [DecidableEq Id] in
theorem mem_of_taken {id : Id} (h : Taken identity rows i id) : id ∈ rows.map identity := by
  obtain ⟨j, -, other, hother, rfl⟩ := h
  exact List.mem_map_of_mem (List.mem_of_getElem? hother)

omit [DecidableEq Id] in
/-- Where identities differ a row's own is nobody else's. -/
theorem not_taken_self (h : (rows.map identity).Nodup) (hrow : rows[i]? = some row) :
    ¬ Taken identity rows i (identity row) := by
  rintro ⟨j, hij, other, hother, hid⟩
  obtain ⟨hi, rfl⟩ := List.getElem?_eq_some_iff.mp hrow
  obtain ⟨hj, rfl⟩ := List.getElem?_eq_some_iff.mp hother
  have hi' : i < (rows.map identity).length := by simpa using hi
  have hj' : j < (rows.map identity).length := by simpa using hj
  have hsame : (rows.map identity)[j] = (rows.map identity)[i] := by
    rw [List.getElem_map, List.getElem_map, hid]
  exact hij ((h.getElem_inj_iff).mp hsame)

/-- An identity that is wished for stays with whoever has it. -/
theorem Taken.round (hs : Settling identity wish) (hwish : wish row = some new)
    (h : Taken identity rows i (identity new)) :
    Taken identity (round identity wish rows order) i (identity new) := by
  obtain ⟨j, hij, other, hother, hid⟩ := h
  exact ⟨j, hij, other, getElem?_round_settled hother (hs.settled hwish hid), hid⟩

/-- A wish is granted in its turn, or the identity is another row's. -/
theorem getElem?_round (hs : Settling identity wish) (horder : order.Nodup) (hi : i ∈ order)
    (hrow : rows[i]? = some row) (hwish : wish row = some new) :
    (round identity wish rows order)[i]? = some new ∨
      (round identity wish rows order)[i]? = some row ∧
        Taken identity (round identity wish rows order) i (identity new) := by
  induction order generalizing rows with
  | nil => exact absurd hi List.not_mem_nil
  | cons j order ih =>
      obtain ⟨hj, horder⟩ := List.nodup_cons.mp horder
      by_cases hij : i = j
      · subst hij
        have hbind : rows[i]?.bind wish = some new := by rw [hrow, Option.bind_some, hwish]
        by_cases hfree : identity new ∈ rows.map identity
        · have htaken : Taken identity rows i (identity new) :=
            taken_of_mem hfree hrow (hs.moves hwish)
          have hturn : turn identity wish rows i = rows := turn_of_taken hbind hfree
          right
          show (round identity wish (turn identity wish rows i) order)[i]? = some row ∧
            Taken identity (round identity wish (turn identity wish rows i) order) i (identity new)
          rw [hturn]
          exact ⟨(getElem?_round_outside hj).trans hrow, htaken.round hs hwish⟩
        · left
          have hlt : i < rows.length := (List.getElem?_eq_some_iff.mp hrow).1
          calc (round identity wish (turn identity wish rows i) order)[i]?
              = (turn identity wish rows i)[i]? := getElem?_round_outside hj
            _ = (rows.set i new)[i]? := by rw [turn_of_free hbind hfree]
            _ = some new := List.getElem?_set_self hlt
      · have hi' : i ∈ order := (List.mem_cons.mp hi).resolve_left hij
        exact ih horder hi' ((getElem?_turn_ne hij).trans hrow)

/-- After a round, the turns of those who had one change nothing. -/
theorem turn_round (hs : Settling identity wish) (horder : order.Nodup) (hi : i ∈ order) :
    turn identity wish (round identity wish rows order) i = round identity wish rows order := by
  cases hrow : rows[i]? with
  | none =>
      have hnone : (round identity wish rows order)[i]? = none := by
        rw [List.getElem?_eq_none_iff] at hrow ⊢
        rwa [length_round]
      exact turn_of_none (by rw [hnone]; rfl)
  | some row =>
      cases hwish : wish row with
      | none =>
          apply turn_of_none
          rw [getElem?_round_settled hrow hwish, Option.bind_some, hwish]
      | some new =>
          rcases getElem?_round hs horder hi hrow hwish with hnew | ⟨hsame, htaken⟩
          · apply turn_of_none
            rw [hnew, Option.bind_some, hs.settled hwish rfl]
          · refine turn_of_taken ?_ (mem_of_taken htaken)
            rw [hsame, Option.bind_some, hwish]

/-- A second round, in any order, changes nothing. -/
theorem round_round (hs : Settling identity wish) (horder : order.Nodup) {again : List ℕ}
    (hagain : ∀ i ∈ again, i ∈ order) :
    round identity wish (round identity wish rows order) again =
      round identity wish rows order := by
  induction again with
  | nil => rfl
  | cons i again ih =>
      show round identity wish (turn identity wish (round identity wish rows order) i) again = _
      rw [turn_round hs horder (hagain i List.mem_cons_self)]
      exact ih fun j hj => hagain j (List.mem_cons_of_mem i hj)

end Renaming
