import Mathlib.Data.List.Basic
import Mathlib.Data.List.Pairwise

/-!
# Queues in which a newcomer replaces those it overtakes

A history of such a queue lists what entered it and what was popped from it.
An item is overtaken when something that overtakes it enters before it has been
popped; the items that are not overtaken, in the order they entered, are what
the consumer has been given and has yet to be given.
-/

namespace Overtaking

variable {α : Type*}

inductive Mark (α : Type*) where
  | entered (a : α)
  | popped (a : α)
  deriving DecidableEq

def Mark.entered? : Mark α → Option α
  | .entered a => some a
  | .popped _ => none

def Mark.popped? : Mark α → Option α
  | .entered _ => none
  | .popped a => some a

def entries (log : List (Mark α)) : List α := log.filterMap Mark.entered?

def pops (log : List (Mark α)) : List α := log.filterMap Mark.popped?

variable [DecidableEq α] (overtakes : α → α → Bool)

/-- Something that overtakes `a` entered, and `a` had not been popped by then. -/
def overtaken (a : α) : List (Mark α) → Bool
  | [] => false
  | .popped b :: rest => if b = a then false else overtaken a rest
  | .entered d :: rest => overtakes d a || overtaken a rest

/-- What entered and was not overtaken. -/
def survivors (log : List (Mark α)) : List α :=
  (entries log).filter fun a => !overtaken overtakes a log

variable {overtakes} {log : List (Mark α)} {a d : α}

omit [DecidableEq α] in
@[simp] theorem entries_append_entered (d : α) :
    entries (log ++ [.entered d]) = entries log ++ [d] := by
  simp [entries, Mark.entered?]

omit [DecidableEq α] in
@[simp] theorem entries_append_popped (b : α) :
    entries (log ++ [.popped b]) = entries log := by
  simp [entries, Mark.entered?]

omit [DecidableEq α] in
@[simp] theorem pops_append_entered (d : α) : pops (log ++ [.entered d]) = pops log := by
  simp [pops, Mark.popped?]

omit [DecidableEq α] in
@[simp] theorem pops_append_popped (b : α) : pops (log ++ [.popped b]) = pops log ++ [b] := by
  simp [pops, Mark.popped?]

theorem overtaken_append_popped (b : α) :
    overtaken overtakes a (log ++ [.popped b]) = overtaken overtakes a log := by
  induction log with
  | nil => simp [overtaken]
  | cons mark rest ih => cases mark <;> simp [overtaken, ih]

theorem overtaken_append_entered (d : α) :
    overtaken overtakes a (log ++ [.entered d]) =
      (overtaken overtakes a log || (decide (a ∉ pops log) && overtakes d a)) := by
  induction log with
  | nil => simp [overtaken, pops]
  | cons mark rest ih =>
      cases mark with
      | entered e => simp [overtaken, ih, pops, Mark.popped?, Bool.or_assoc]
      | popped b =>
          by_cases hb : b = a
          · simp [overtaken, hb, pops, Mark.popped?]
          · have hne : a ≠ b := fun h => hb h.symm
            simp [overtaken, hb, hne, ih, pops, Mark.popped?]

theorem exists_overtaker (h : overtaken overtakes a log = true) :
    ∃ d ∈ entries log, overtakes d a = true := by
  induction log with
  | nil => exact absurd h (by simp [overtaken])
  | cons mark rest ih =>
      cases mark with
      | entered e =>
          simp only [overtaken, Bool.or_eq_true] at h
          rcases h with he | hrest
          · exact ⟨e, by simp [entries, Mark.entered?], he⟩
          · obtain ⟨d, hd, hover⟩ := ih hrest
            exact ⟨d, by simpa [entries, Mark.entered?] using Or.inr hd, hover⟩
      | popped b =>
          simp only [overtaken] at h
          split at h
          · exact absurd h (by simp)
          · obtain ⟨d, hd, hover⟩ := ih h
            exact ⟨d, by simpa [entries, Mark.entered?] using hd, hover⟩

/-! ## The consumer and what is pending -/

variable {pending : List α}

theorem survivors_append_popped (b : α) :
    survivors overtakes (log ++ [.popped b]) = survivors overtakes log := by
  simp only [survivors, entries_append_popped, overtaken_append_popped]

/-- A newcomer displaces the pending ones it overtakes and goes to the end. -/
theorem survivors_append_entered (h : survivors overtakes log = pops log ++ pending)
    (hpending : ∀ a ∈ pending, a ∉ pops log) (hnew : overtaken overtakes d log = false)
    (hself : overtakes d d = false) :
    survivors overtakes (log ++ [.entered d]) =
      pops log ++ (pending.filter (fun a => !overtakes d a) ++ [d]) := by
  -- what was popped is out of the newcomer's reach
  have hsplit : ∀ a, (!overtaken overtakes a (log ++ [.entered d])) =
      ((decide (a ∈ pops log) || !overtakes d a) && !overtaken overtakes a log) := by
    intro a
    rw [overtaken_append_entered]
    by_cases ha : a ∈ pops log <;> cases overtaken overtakes a log <;> simp [ha]
  have hkept : (pops log).filter (fun a => decide (a ∈ pops log) || !overtakes d a) =
      pops log := by
    rw [List.filter_eq_self]
    intro a ha
    simp [ha]
  have hrest : pending.filter (fun a => decide (a ∈ pops log) || !overtakes d a) =
      pending.filter fun a => !overtakes d a := by
    apply List.filter_congr
    intro a ha
    simp [hpending a ha]
  unfold survivors at h ⊢
  rw [entries_append_entered, List.filter_append, List.filter_singleton]
  simp only [hsplit, hself, hnew]
  -- first those not overtaken before, then those the newcomer leaves alone
  rw [← List.filter_filter, h, List.filter_append, hkept, hrest]
  simp

/-- The last entry of a kind that nothing of another kind overtakes is not lost. -/
theorem getLast?_survivors {mine : α → Bool} {rank : α → ℕ}
    (hascending : (entries log).Pairwise fun a b => rank a < rank b)
    (hovertakes : ∀ d a, overtakes d a = true → mine a = true → mine d = true ∧ rank a < rank d) :
    ((survivors overtakes log).filter mine).getLast? = ((entries log).filter mine).getLast? := by
  have hswap : (survivors overtakes log).filter mine =
      ((entries log).filter mine).filter fun a => !overtaken overtakes a log := by
    unfold survivors
    rw [List.filter_filter, List.filter_filter]
    exact List.filter_congr fun a _ => Bool.and_comm _ _
  rw [hswap]
  rcases List.eq_nil_or_concat ((entries log).filter mine) with hnil | ⟨init, last, hconcat⟩
  · rw [hnil]
    rfl
  have hmine : mine last = true := by
    have hmem : last ∈ (entries log).filter mine := by simp [hconcat]
    exact (List.mem_filter.mp hmem).2
  -- an overtaker of the last of a kind would be of that kind, and later
  have hfree : overtaken overtakes last log = false := by
    rw [Bool.eq_false_iff]
    intro hover
    obtain ⟨d, hd, hda⟩ := exists_overtaker hover
    obtain ⟨hmineD, hrank⟩ := hovertakes d last hda hmine
    have hmemD : d ∈ init ++ [last] := by
      rw [← List.concat_eq_append, ← hconcat]
      exact List.mem_filter.mpr ⟨hd, hmineD⟩
    have hsorted := hascending.filter mine
    rw [hconcat, List.concat_eq_append, List.pairwise_append] at hsorted
    rcases List.mem_append.mp hmemD with hinit | hlast
    · exact absurd (hsorted.2.2 d hinit last (by simp)) (by omega)
    · rw [List.mem_singleton.mp hlast] at hrank
      exact absurd hrank (by omega)
  rw [hconcat, List.concat_eq_append, List.filter_append, List.filter_singleton]
  simp [hfree]

end Overtaking
