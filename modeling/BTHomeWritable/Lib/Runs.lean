import Mathlib.Data.List.Basic

/-!
# Runs of a step function

A run feeds a list of actions to a step function.  `Along P s acts` says that
every step of the run meets `P`, a condition on the state before the step and
the action taken; `run_invariant` is the induction every safety result of this
development goes through, and `run_simulation` matches a run of one machine by
a run of a coarser one.
-/

namespace Runs

variable {σ τ α β : Type*}

/-- The state after the actions `acts`. -/
def run (step : σ → α → σ) (s : σ) (acts : List α) : σ := acts.foldl step s

/-- Every step of the run from `s` meets `P`. -/
def Along (step : σ → α → σ) (P : σ → α → Prop) : σ → List α → Prop
  | _, [] => True
  | s, a :: rest => P s a ∧ Along step P (step s a) rest

instance Along.decidable (step : σ → α → σ) (P : σ → α → Prop) [∀ s a, Decidable (P s a)] :
    ∀ s acts, Decidable (Along step P s acts)
  | _, [] => inferInstanceAs (Decidable True)
  | s, a :: rest =>
      have := Along.decidable step P (step s a) rest
      inferInstanceAs (Decidable (P s a ∧ Along step P (step s a) rest))

variable {step : σ → α → σ} {P : σ → α → Prop}

@[simp] theorem run_cons (s : σ) (a : α) (rest : List α) :
    run step s (a :: rest) = run step (step s a) rest := rfl

theorem run_append (s : σ) (first second : List α) :
    run step s (first ++ second) = run step (run step s first) second := by
  simp [run]

/-- A predicate that holds at the start and that every step meeting `P`
preserves holds at the end. -/
theorem run_invariant {Inv : σ → Prop} (hstep : ∀ s a, Inv s → P s a → Inv (step s a))
    {s : σ} {acts : List α} (hinit : Inv s) (halong : Along step P s acts) :
    Inv (run step s acts) := by
  induction acts generalizing s with
  | nil => exact hinit
  | cons a rest ih => exact ih (hstep s a hinit halong.1) halong.2

theorem Along.mono {P' : σ → α → Prop} (hmono : ∀ s a, P s a → P' s a) {s : σ} {acts : List α}
    (halong : Along step P s acts) : Along step P' s acts := by
  induction acts generalizing s with
  | nil => trivial
  | cons a rest ih => exact ⟨hmono s a halong.1, ih halong.2⟩

/-- A condition that an invariant supplies need not be asked for. -/
theorem Along.strengthen {Inv : σ → Prop} {P' : σ → α → Prop}
    (hstep : ∀ s a, Inv s → P s a → Inv (step s a))
    (hsupply : ∀ s a, Inv s → P s a → P' s a) {s : σ} {acts : List α} (hinit : Inv s)
    (halong : Along step P s acts) : Along step P' s acts := by
  induction acts generalizing s with
  | nil => trivial
  | cons a rest ih =>
      exact ⟨hsupply s a hinit halong.1, ih (hstep s a hinit halong.1) halong.2⟩

theorem Along.and {P' : σ → α → Prop} {s : σ} {acts : List α} (h : Along step P s acts)
    (h' : Along step P' s acts) : Along step (fun s a => P s a ∧ P' s a) s acts := by
  induction acts generalizing s with
  | nil => trivial
  | cons a rest ih => exact ⟨⟨h.1, h'.1⟩, ih h.2 h'.2⟩

theorem Along.of_forall {R : α → Prop} {s : σ} {acts : List α} (h : ∀ a ∈ acts, R a) :
    Along step (fun _ a => R a) s acts := by
  induction acts generalizing s with
  | nil => trivial
  | cons a rest ih =>
      exact ⟨h a (by simp), ih fun b hb => h b (List.mem_cons_of_mem _ hb)⟩

/-- What no step can bring about held before every step, if it holds at the end. -/
theorem Along.of_end {R : σ → Prop} (hback : ∀ s a, R (step s a) → R s) {s : σ} {acts : List α}
    (hend : R (run step s acts)) : Along step (fun s _ => R s) s acts := by
  have hstart : ∀ (acts : List α) (s : σ), R (run step s acts) → R s := by
    intro acts
    induction acts with
    | nil => exact fun _ h => h
    | cons a rest ih => exact fun s h => hback s a (ih _ h)
  induction acts generalizing s with
  | nil => trivial
  | cons a rest ih => exact ⟨hstart (a :: rest) s hend, ih hend⟩

theorem along_append {s : σ} {first second : List α} :
    Along step P s (first ++ second) ↔
      Along step P s first ∧ Along step P (run step s first) second := by
  induction first generalizing s with
  | nil => simp [Along, run]
  | cons a rest ih =>
      rw [List.cons_append, run_cons]
      exact (and_congr_right fun _ => ih).trans and_assoc.symm

theorem along_concat {s : σ} {acts : List α} {a : α} :
    Along step P s (acts ++ [a]) ↔ Along step P s acts ∧ P (run step s acts) a := by
  rw [along_append, Along, Along, and_true]

/-- If `coarse` matches every step of `step` by a few of its own so that `R` goes on holding, it
matches every run, and what is true of the coarse steps of one act is true of those of the run. -/
theorem run_simulation {coarse : τ → β → τ} {R : σ → τ → Prop} {Fine : α → Prop}
    {Coarse : β → Prop}
    (hstep : ∀ s a t, Fine a → R s t → ∃ coarseActs, (∀ b ∈ coarseActs, Coarse b) ∧
      R (step s a) (run coarse t coarseActs))
    {s : σ} {t : τ} (h : R s t) {acts : List α} (hacts : ∀ a ∈ acts, Fine a) :
    ∃ coarseActs, (∀ b ∈ coarseActs, Coarse b) ∧
      R (run step s acts) (run coarse t coarseActs) := by
  induction acts generalizing s t with
  | nil => exact ⟨[], by simp, h⟩
  | cons a rest ih =>
      obtain ⟨now, hnow, hmatched⟩ := hstep s a t (hacts a (by simp)) h
      obtain ⟨later, hlater, hrun⟩ := ih hmatched fun b hb => hacts b (List.mem_cons_of_mem _ hb)
      refine ⟨now ++ later, ?_, by rwa [run_cons, run_append]⟩
      intro b hb
      rcases List.mem_append.mp hb with hfirst | hsecond
      · exact hnow b hfirst
      · exact hlater b hsecond

/-! ## Histories grow at their end -/

theorem forall_mem_concat {R : α → Prop} {l : List α} {x : α} :
    (∀ y ∈ l ++ [x], R y) ↔ (∀ y ∈ l, R y) ∧ R x := by
  simp [or_imp, forall_and]

theorem pairwise_concat {R : α → α → Prop} {l : List α} {x : α} :
    (l ++ [x]).Pairwise R ↔ l.Pairwise R ∧ ∀ y ∈ l, R y x := by
  simp [List.pairwise_append]

end Runs
