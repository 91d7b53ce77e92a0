import BTHomeWritable.Lib.Statements
import BTHomeWritable.Lib.Throwing

/-!
# One program in the terms of the other

A program can be written down twice: as an `EStateM` program, whose throws come
from an environment that is part of it, and as a program of statements, whose
throws come from a script.  `Follows A R S p q s t` compares the two from the
states `s` and `t`: some script of fates that meet `A` takes `q` from `t` the way
`p` goes from `s`, so that both return, with values related by `S`, or both throw,
and either way in states related by `R`.  What `q` leaves of a longer script is
the rest of it, which is what lets scripts be put one after the other.

The rules go by the shape of the two programs (`Follows.pure`, `Follows.bind`),
of a statement on both sides (`Follows.stmt`, `Follows.call`), or of one that only
one side has (`Follows.leftLook`, `Follows.rightLook`, `Follows.rightOnly`,
`Follows.rightCall`).  `Follows.left_state` reads the comparison off the state
that is left.
-/

namespace Scripted

open Statements Throwing

variable {φ σ τ ε δ : Type} {α β γ κ : Type} {A : Fate φ → Prop} {R : σ → τ → Prop}
  {S : α → β → Prop} {T : γ → κ → Prop} {s s' : σ} {t : τ}

/-- Under some script of fates that meet `A`, `q` does from `t` what `p` does from `s`. -/
def Follows (A : Fate φ → Prop) (R : σ → τ → Prop) (S : α → β → Prop) (p : EStateM ε σ α)
    (q : Prog φ τ δ β) (s : σ) (t : τ) : Prop :=
  ∃ script : List (Fate φ), (∀ fate ∈ script, A fate) ∧ match p s with
    | .ok a s' => ∃ b t', S a b ∧ R s' t' ∧ ∀ rest, q t (script ++ rest) = .done b t' rest
    | .error _ s' => ∃ e t', R s' t' ∧ ∀ rest, q t (script ++ rest) = .threw e t' rest

theorem Follows.of_ok {p : EStateM ε σ α} {q : Prog φ τ δ β} {a : α} {b : β} {t' : τ}
    (script : List (Fate φ)) (hscript : ∀ fate ∈ script, A fate) (hp : p s = .ok a s')
    (hS : S a b) (hR : R s' t') (hq : ∀ rest, q t (script ++ rest) = .done b t' rest) :
    Follows A R S p q s t := by
  refine ⟨script, hscript, ?_⟩
  rw [hp]
  exact ⟨b, t', hS, hR, hq⟩

theorem Follows.of_error {p : EStateM ε σ α} {q : Prog φ τ δ β} {e : ε} {e' : δ} {t' : τ}
    (script : List (Fate φ)) (hscript : ∀ fate ∈ script, A fate) (hp : p s = .error e s')
    (hR : R s' t') (hq : ∀ rest, q t (script ++ rest) = .threw e' t' rest) :
    Follows A R S p q s t := by
  refine ⟨script, hscript, ?_⟩
  rw [hp]
  exact ⟨e', t', hR, hq⟩

/-! ## One program after the other -/

theorem forall_mem_append {first second : List (Fate φ)} (hfirst : ∀ fate ∈ first, A fate)
    (hsecond : ∀ fate ∈ second, A fate) : ∀ fate ∈ first ++ second, A fate := fun fate hfate =>
  (List.mem_append.mp hfate).elim (hfirst fate) (hsecond fate)

theorem Follows.pure {a : α} {b : β} (hS : S a b) (hR : R s t) :
    Follows A R S (pure a : EStateM ε σ α) (Pure.pure b : Prog φ τ δ β) s t :=
  .of_ok [] (by simp) rfl hS hR fun _ => rfl

theorem Follows.bind {p : EStateM ε σ γ} {q : Prog φ τ δ κ} {k : γ → EStateM ε σ α}
    {k' : κ → Prog φ τ δ β} (h : Follows A R T p q s t)
    (hk : ∀ a b s' t', p s = .ok a s' → T a b → R s' t' → Follows A R S (k a) (k' b) s' t') :
    Follows A R S (p >>= k) (q >>= k') s t := by
  obtain ⟨first, hfirst, h⟩ := h
  cases hp : p s with
  | ok a s' =>
      rw [hp] at h
      obtain ⟨b, t', hT, hR, hq⟩ := h
      obtain ⟨second, hsecond, hthen⟩ := hk a b s' t' hp hT hR
      have hsame : ∀ rest, (q >>= k') t (first ++ second ++ rest) = k' b t' (second ++ rest) :=
        fun rest => by rw [List.append_assoc, Prog.bind_done (hq _)]
      refine ⟨first ++ second, forall_mem_append hfirst hsecond, ?_⟩
      rw [bind_of_ok hp]
      cases hlast : k a s' with
      | ok c u =>
          rw [hlast] at hthen
          obtain ⟨c', u', hS, hR', hdone⟩ := hthen
          exact ⟨c', u', hS, hR', fun rest => (hsame rest).trans (hdone rest)⟩
      | error e u =>
          rw [hlast] at hthen
          obtain ⟨e', u', hR', hthrew⟩ := hthen
          exact ⟨e', u', hR', fun rest => (hsame rest).trans (hthrew rest)⟩
  | error e s' =>
      rw [hp] at h
      obtain ⟨e', t', hR, hq⟩ := h
      exact .of_error first hfirst (bind_of_error hp) hR fun rest => Prog.bind_threw (hq rest)

/-! ## Statements on both sides -/

theorem Follows.stmt (hgo : A .go) {f : σ → σ} {g : τ → τ} (hR : R (f s) (g t)) :
    Follows A R (fun _ _ => True) (update f : EStateM ε σ Unit) (Prog.stmt g : Prog φ τ δ Unit)
      s t :=
  .of_ok [.go] (by simpa using hgo) rfl trivial hR fun _ => rfl

/-- A call that throws here meets a fault of its kind there. -/
theorem Follows.call [DecidableEq φ] (hgo : A .go) {kind : φ} {e : δ} {g : τ → τ}
    {p : EStateM ε σ Unit} (hok : ∀ s', p s = .ok () s' → R s' (g t))
    (herror : ∀ x s', p s = .error x s' → A (.fault kind) ∧ R s' t) :
    Follows A R (fun _ _ => True) p (Prog.call kind e g : Prog φ τ δ Unit) s t := by
  cases hp : p s with
  | ok u s' => exact .of_ok [.go] (by simpa using hgo) hp trivial (hok s' hp) fun _ => rfl
  | error x s' =>
      obtain ⟨hkind, hR⟩ := herror x s' hp
      have hfault : ∀ rest, (Prog.call kind e g : Prog φ τ δ Unit) t ([.fault kind] ++ rest) =
          .threw e t rest := fun _ => if_pos rfl
      exact .of_error [.fault kind] (by simpa using hkind) hp hR hfault

/-! ## Statements on one side -/

/-- A look at the state that only the left side takes. -/
theorem Follows.leftLook {g : σ → γ} {k : γ → EStateM ε σ α} {q : Prog φ τ δ β}
    (hk : Follows A R S (k (g s)) q s t) : Follows A R S (look g >>= k) q s t := hk

/-- A look at the state that only the right side takes. -/
theorem Follows.rightLook {g : τ → κ} {p : EStateM ε σ α} {k : κ → Prog φ τ δ β}
    (hk : Follows A R S p (k (g t)) s t) : Follows A R S p (Prog.read g >>= k) s t := hk

/-- A part of the right side alone that comes through under some script. -/
theorem Follows.rightPart {p : EStateM ε σ α} {q : Prog φ τ δ κ} {k : κ → Prog φ τ δ β} {b : κ}
    {t' : τ} (first : List (Fate φ)) (hfirst : ∀ fate ∈ first, A fate)
    (hq : ∀ rest, q t (first ++ rest) = .done b t' rest) (h : Follows A R S p (k b) s t') :
    Follows A R S p (q >>= k) s t := by
  obtain ⟨script, hscript, h⟩ := h
  have hsame : ∀ rest, (q >>= k) t (first ++ script ++ rest) = k b t' (script ++ rest) :=
    fun rest => by rw [List.append_assoc, Prog.bind_done (hq _)]
  refine ⟨first ++ script, forall_mem_append hfirst hscript, ?_⟩
  simpa only [hsame] using h

theorem Follows.rightOnly (hgo : A .go) {g : τ → τ} {p : EStateM ε σ α}
    {k : Unit → Prog φ τ δ β} (h : Follows A R S p (k ()) s (g t)) :
    Follows A R S p (Prog.stmt g >>= k) s t :=
  .rightPart [.go] (by simpa using hgo) (fun _ => rfl) h

/-- A call that does not throw. -/
theorem Follows.rightCall [DecidableEq φ] (hgo : A .go) {kind : φ} {e : δ} {g : τ → τ}
    {p : EStateM ε σ α} {k : Unit → Prog φ τ δ β} (h : Follows A R S p (k ()) s (g t)) :
    Follows A R S p (Prog.call kind e g >>= k) s t :=
  .rightPart [.go] (by simpa using hgo) (fun _ => rfl) h

/-! ## What is left -/

/-- The state that `q` leaves under the script, returning or throwing, is related to that of `p`. -/
theorem Follows.left_state {p : EStateM ε σ α} {q : Prog φ τ δ β} (h : Follows A R S p q s t) :
    ∃ script : List (Fate φ), (∀ fate ∈ script, A fate) ∧
      ((∃ b t', q t script = .done b t' [] ∧ R (left p s) t') ∨
        ∃ e t', q t script = .threw e t' [] ∧ R (left p s) t') := by
  obtain ⟨script, hscript, h⟩ := h
  refine ⟨script, hscript, ?_⟩
  cases hp : p s with
  | ok a s' =>
      rw [hp] at h
      obtain ⟨b, t', -, hR, hq⟩ := h
      rw [left_ok hp]
      exact .inl ⟨b, t', by simpa using hq [], hR⟩
  | error e s' =>
      rw [hp] at h
      obtain ⟨e', t', hR, hq⟩ := h
      rw [left_error hp]
      exact .inr ⟨e', t', by simpa using hq [], hR⟩

end Scripted
