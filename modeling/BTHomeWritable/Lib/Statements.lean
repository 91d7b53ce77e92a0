import Mathlib.Tactic.TypeStar

/-!
# Programs made of statements that power can leave

A program over a state `σ` runs statement by statement.  Each statement meets
a *fate*, read off a script: it goes ahead, or the power is cut just before it,
or what it calls throws a fault of kind `φ`.  A script that has run out lets
everything go ahead, so the empty script is the undisturbed run.

`wp A p Q E C s` says what holds after `p` from `s` for every script whose
fates all satisfy `A`: `Q` of the value and the state if it returns, `E` of the
error and the state if it throws, `C` of the state at which the power went.
The rules below follow the shape of a program, one for each way to build one.
-/

namespace Statements

universe u

/-- What one statement meets when its turn comes. -/
inductive Fate (φ : Type*) where
  | go
  | cut
  | fault (kind : φ)
  deriving DecidableEq

/-- How a program ends, and the part of the script it left. -/
inductive Outcome (φ σ ε α : Type*) where
  | done (value : α) (state : σ) (rest : List (Fate φ))
  | threw (error : ε) (state : σ) (rest : List (Fate φ))
  | cut (state : σ)

/-- A program over `σ` that throws `ε` and returns `α`. -/
def Prog (φ σ ε α : Type*) := σ → List (Fate φ) → Outcome φ σ ε α

variable {φ σ ε : Type*} {α β : Type u}

namespace Outcome

/-- The value of a program that returned. -/
def value? : Outcome φ σ ε α → Option α
  | .done a _ _ => some a
  | _ => none

end Outcome

namespace Prog

/-- Returning costs no statement. -/
protected def pure (a : α) : Prog φ σ ε α := fun s script => .done a s script

/-- One program after another; a throw or a cut ends the whole. -/
protected def bind (p : Prog φ σ ε α) (k : α → Prog φ σ ε β) : Prog φ σ ε β :=
  fun s script =>
    match p s script with
    | .done a s' rest => k a s' rest
    | .threw e s' rest => .threw e s' rest
    | .cut s' => .cut s'

instance : Monad (Prog φ σ ε) where
  pure := Prog.pure
  bind := Prog.bind

/-- Reading the state is part of the statement around it. -/
def read (g : σ → α) : Prog φ σ ε α := fun s script => .done (g s) s script

/-- `throw e`. -/
def raise (e : ε) : Prog φ σ ε α := fun s script => .threw e s script

/-- A statement that cannot fail. -/
def stmt (f : σ → σ) : Prog φ σ ε Unit := fun s script =>
  match script with
  | [] => .done () (f s) []
  | .cut :: _ => .cut s
  | _ :: rest => .done () (f s) rest

/-- A statement whose callee may throw `e`, and then has not changed anything. -/
def call [DecidableEq φ] (kind : φ) (e : ε) (f : σ → σ) : Prog φ σ ε Unit := fun s script =>
  match script with
  | [] => .done () (f s) []
  | .cut :: _ => .cut s
  | .go :: rest => .done () (f s) rest
  | .fault k :: rest => if k = kind then .threw e s rest else .done () (f s) rest

/-- A program whose first part returned goes on with the second. -/
theorem bind_done {p : Prog φ σ ε α} {k : α → Prog φ σ ε β} {s s' : σ} {a : α}
    {script rest : List (Fate φ)} (h : p s script = .done a s' rest) :
    (p >>= k) s script = k a s' rest := by
  show Prog.bind p k s script = _
  rw [Prog.bind, h]

theorem bind_threw {p : Prog φ σ ε α} {k : α → Prog φ σ ε β} {s s' : σ} {e : ε}
    {script rest : List (Fate φ)} (h : p s script = .threw e s' rest) :
    (p >>= k) s script = .threw e s' rest := by
  show Prog.bind p k s script = _
  rw [Prog.bind, h]

@[simp] theorem stmt_nil (f : σ → σ) (s : σ) :
    (Prog.stmt f : Prog φ σ ε Unit) s [] = .done () (f s) [] := rfl

@[simp] theorem call_nil [DecidableEq φ] (kind : φ) (e : ε) (f : σ → σ) (s : σ) :
    (Prog.call kind e f : Prog φ σ ε Unit) s [] = .done () (f s) [] := rfl

end Prog

/-- The weakest precondition over every script whose fates satisfy `A`. -/
def wp (A : Fate φ → Prop) (p : Prog φ σ ε α) (Q : α → σ → Prop) (E : ε → σ → Prop)
    (C : σ → Prop) (s : σ) : Prop :=
  ∀ script, (∀ fate ∈ script, A fate) →
    match p s script with
    | .done a s' rest => Q a s' ∧ ∀ fate ∈ rest, A fate
    | .threw e s' _ => E e s'
    | .cut s' => C s'

variable {A : Fate φ → Prop} {Q : α → σ → Prop} {E : ε → σ → Prop} {C : σ → Prop} {s : σ}

theorem wp_pure {a : α} (h : Q a s) : wp A (pure a : Prog φ σ ε α) Q E C s :=
  fun _ hscript => ⟨h, hscript⟩

theorem wp_read {g : σ → α} (h : Q (g s) s) : wp A (Prog.read g : Prog φ σ ε α) Q E C s :=
  fun _ hscript => ⟨h, hscript⟩

theorem wp_raise {e : ε} (h : E e s) : wp A (Prog.raise e : Prog φ σ ε α) Q E C s :=
  fun _ _ => h

theorem wp_bind {p : Prog φ σ ε α} {k : α → Prog φ σ ε β} {Q : β → σ → Prop}
    (h : wp A p (fun a s' => wp A (k a) Q E C s') E C s) : wp A (p >>= k) Q E C s := by
  intro script hscript
  have hp := h script hscript
  change match Prog.bind p k s script with
    | .done a s' rest => Q a s' ∧ ∀ fate ∈ rest, A fate
    | .threw e s' _ => E e s'
    | .cut s' => C s'
  unfold Prog.bind
  cases hrun : p s script with
  | done a s' rest =>
      rw [hrun] at hp
      exact hp.1 rest hp.2
  | threw e s' rest =>
      rw [hrun] at hp
      exact hp
  | cut s' =>
      rw [hrun] at hp
      exact hp

/-- The power goes at a statement only if the scripts let it. -/
theorem wp_stmt_of_fates {Q : Unit → σ → Prop} {f : σ → σ} (hdone : Q () (f s))
    (hcut : A .cut → C s) : wp A (Prog.stmt f : Prog φ σ ε Unit) Q E C s := by
  intro script hscript
  match script with
  | [] => exact ⟨hdone, by simp⟩
  | .cut :: _ => exact hcut (hscript _ (by simp))
  | .go :: rest => exact ⟨hdone, fun fate hfate => hscript fate (List.mem_cons_of_mem _ hfate)⟩
  | .fault _ :: rest =>
      exact ⟨hdone, fun fate hfate => hscript fate (List.mem_cons_of_mem _ hfate)⟩

theorem wp_stmt {Q : Unit → σ → Prop} {f : σ → σ} (hdone : Q () (f s)) (hcut : C s) :
    wp A (Prog.stmt f : Prog φ σ ε Unit) Q E C s :=
  wp_stmt_of_fates hdone fun _ => hcut

theorem wp_call_of_fates [DecidableEq φ] {Q : Unit → σ → Prop} {kind : φ} {e : ε} {f : σ → σ}
    (hdone : Q () (f s)) (hfault : A (.fault kind) → E e s) (hcut : A .cut → C s) :
    wp A (Prog.call kind e f : Prog φ σ ε Unit) Q E C s := by
  intro script hscript
  match script with
  | [] => exact ⟨hdone, by simp⟩
  | .cut :: _ => exact hcut (hscript _ (by simp))
  | .go :: rest => exact ⟨hdone, fun fate hfate => hscript fate (List.mem_cons_of_mem _ hfate)⟩
  | .fault k :: rest =>
      by_cases hkind : k = kind
      · subst hkind
        simpa [Prog.call] using hfault (hscript _ (by simp))
      · simp only [Prog.call, if_neg hkind]
        exact ⟨hdone, fun fate hfate => hscript fate (List.mem_cons_of_mem _ hfate)⟩

theorem wp_call [DecidableEq φ] {Q : Unit → σ → Prop} {kind : φ} {e : ε} {f : σ → σ}
    (hdone : Q () (f s)) (hfault : A (.fault kind) → E e s) (hcut : C s) :
    wp A (Prog.call kind e f : Prog φ σ ε Unit) Q E C s :=
  wp_call_of_fates hdone hfault fun _ => hcut

/-- Weakening all three postconditions at once. -/
theorem wp_mono {p : Prog φ σ ε α} {Q' : α → σ → Prop} {E' : ε → σ → Prop} {C' : σ → Prop}
    (h : wp A p Q E C s) (hQ : ∀ a s', Q a s' → Q' a s') (hE : ∀ e s', E e s' → E' e s')
    (hC : ∀ s', C s' → C' s') : wp A p Q' E' C' s := by
  intro script hscript
  have hp := h script hscript
  cases hrun : p s script with
  | done a s' rest =>
      rw [hrun] at hp
      exact ⟨hQ a s' hp.1, hp.2⟩
  | threw e s' rest =>
      rw [hrun] at hp
      exact hE e s' hp
  | cut s' =>
      rw [hrun] at hp
      exact hC s' hp

theorem wp_trivial (p : Prog φ σ ε α) :
    wp (fun _ => True) p (fun _ _ => True) (fun _ _ => True) (fun _ => True) s := by
  intro script _
  cases p s script <;> simp

end Statements
