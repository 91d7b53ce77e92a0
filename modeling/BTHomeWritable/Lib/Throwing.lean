import Mathlib.Order.Defs.Unbundled

/-!
# Programs that change a state and may throw

`EStateM ε σ α` is a program over a state `σ` that returns an `α` or throws an
`ε`; either way the changes it made so far stand.  A program that returned is
taken apart by `bind_ok`, and the state it left, returning or throwing, by
`left_bind` and `left_attempt`.  `Frame R p` says that `p` leaves every state in
a state related to it by `R`, however it ends: for a preorder `R` this holds of
a program once it holds of the parts, and then every predicate that `R`
preserves is an invariant of it.
-/

namespace Throwing

variable {ε σ α β : Type}

/-- The state a program leaves, by returning or by throwing. -/
def left (p : EStateM ε σ α) (s : σ) : σ :=
  match p s with
  | .ok _ s' => s'
  | .error _ s' => s'

/-- `p` returns from `s`. -/
def Returns (p : EStateM ε σ α) (s : σ) : Prop := ∃ a s', p s = .ok a s'

theorem left_ok {p : EStateM ε σ α} {s s' : σ} {a : α} (h : p s = .ok a s') : left p s = s' := by
  simp only [left, h]

theorem left_error {p : EStateM ε σ α} {s s' : σ} {e : ε} (h : p s = .error e s') :
    left p s = s' := by
  simp only [left, h]

theorem left_congr {p q : EStateM ε σ α} {s t : σ} (h : p s = q t) : left p s = left q t := by
  simp only [left, h]

/-- Reading the state. -/
def look (g : σ → α) : EStateM ε σ α := fun s => .ok (g s) s

/-- An assignment. -/
def update (f : σ → σ) : EStateM ε σ Unit := fun s => .ok () (f s)

/-- `if (c) { p }`. -/
def doIf (c : Prop) [Decidable c] (p : EStateM ε σ Unit) : EStateM ε σ Unit :=
  if c then p else pure ()

/-- `try { p } catch (e) { handle(e) }`; what `p` changed before it threw stays. -/
def attempt (p : EStateM ε σ α) (handle : ε → EStateM ε σ α) : EStateM ε σ α := fun s =>
  match p s with
  | .ok a s' => .ok a s'
  | .error e s' => handle e s'

/-- `try { p } finally { last }`; an error of `last` takes the place of `p`'s. -/
def always (p : EStateM ε σ α) (last : EStateM ε σ Unit) : EStateM ε σ α := fun s =>
  match p s with
  | .ok a t =>
      match last t with
      | .ok _ s' => .ok a s'
      | .error e s' => .error e s'
  | .error e t =>
      match last t with
      | .ok _ s' => .error e s'
      | .error e' s' => .error e' s'

/-! ## Taking programs apart -/

theorem bind_apply (p : EStateM ε σ α) (k : α → EStateM ε σ β) (s : σ) :
    (p >>= k) s = match p s with
      | .ok a t => k a t
      | .error e t => .error e t := by
  show EStateM.bind p k s = _
  unfold EStateM.bind
  cases p s <;> rfl

theorem bind_ok {p : EStateM ε σ α} {k : α → EStateM ε σ β} {s s' : σ} {b : β} :
    (p >>= k) s = .ok b s' ↔ ∃ a t, p s = .ok a t ∧ k a t = .ok b s' := by
  rw [bind_apply]
  cases p s with
  | ok a t =>
      constructor
      · intro h
        exact ⟨a, t, rfl, h⟩
      · rintro ⟨_, _, ⟨⟩, h⟩
        exact h
  | error e t => simp

theorem bind_error {p : EStateM ε σ α} {k : α → EStateM ε σ β} {s s' : σ} {e : ε} :
    (p >>= k) s = .error e s' ↔
      p s = .error e s' ∨ ∃ a t, p s = .ok a t ∧ k a t = .error e s' := by
  rw [bind_apply]
  cases p s with
  | ok a t =>
      constructor
      · intro h
        exact .inr ⟨a, t, rfl, h⟩
      · rintro (h | ⟨_, _, ⟨⟩, h⟩)
        · cases h
        · exact h
  | error e t => simp

/-- A program whose first part returned goes on with the second. -/
theorem bind_of_ok {p : EStateM ε σ α} {k : α → EStateM ε σ β} {s t : σ} {a : α}
    (h : p s = .ok a t) : (p >>= k) s = k a t := by
  rw [bind_apply, h]

theorem bind_of_error {p : EStateM ε σ α} {k : α → EStateM ε σ β} {s t : σ} {e : ε}
    (h : p s = .error e t) : (p >>= k) s = .error e t := by
  rw [bind_apply, h]

theorem left_bind_of_ok {p : EStateM ε σ α} {k : α → EStateM ε σ β} {s t : σ} {a : α}
    (h : p s = .ok a t) : left (p >>= k) s = left (k a) t := by
  unfold left
  rw [bind_of_ok h]

@[simp] theorem pure_apply (a : α) (s : σ) : (pure a : EStateM ε σ α) s = .ok a s := rfl

@[simp] theorem throw_apply (e : ε) (s : σ) : (throw e : EStateM ε σ α) s = .error e s := rfl

@[simp] theorem look_apply (g : σ → α) (s : σ) : (look g : EStateM ε σ α) s = .ok (g s) s := rfl

@[simp] theorem update_apply (f : σ → σ) (s : σ) :
    (update f : EStateM ε σ Unit) s = .ok () (f s) := rfl

@[simp] theorem look_bind (g : σ → α) (k : α → EStateM ε σ β) (s : σ) :
    ((look g : EStateM ε σ α) >>= k) s = k (g s) s := rfl

@[simp] theorem update_bind (f : σ → σ) (k : Unit → EStateM ε σ β) (s : σ) :
    ((update f : EStateM ε σ Unit) >>= k) s = k () (f s) := rfl

theorem attempt_of_ok {p : EStateM ε σ α} {handle : ε → EStateM ε σ α} {s s' : σ} {a : α}
    (h : p s = .ok a s') : attempt p handle s = .ok a s' := by
  simp only [attempt, h]

theorem attempt_of_error {p : EStateM ε σ α} {handle : ε → EStateM ε σ α} {s t : σ} {e : ε}
    (h : p s = .error e t) : attempt p handle s = handle e t := by
  simp only [attempt, h]

theorem always_ok {p : EStateM ε σ α} {last : EStateM ε σ Unit} {s s' : σ} {a : α}
    (h : always p last s = .ok a s') : ∃ t, p s = .ok a t ∧ last t = .ok () s' := by
  unfold always at h
  cases hp : p s with
  | ok b t =>
      rw [hp] at h
      cases hlast : last t with
      | ok _ u =>
          simp only [hlast] at h
          obtain ⟨rfl, rfl⟩ := EStateM.Result.ok.inj h
          exact ⟨t, rfl, hlast⟩
      | error e u =>
          simp only [hlast] at h
          cases h
  | error e t =>
      rw [hp] at h
      cases hlast : last t <;> simp [hlast] at h

theorem left_always (p : EStateM ε σ α) (last : EStateM ε σ Unit) (s : σ) :
    left (always p last) s = left last (left p s) := by
  unfold left always
  cases p s with
  | ok a t =>
      simp only
      cases last t <;> rfl
  | error e t =>
      simp only
      cases last t <;> rfl

/-- A program leaves an `I` state if its first part does and its second part keeps to it. -/
theorem left_bind {I : σ → Prop} {p : EStateM ε σ α} {k : α → EStateM ε σ β} {s : σ}
    (h : I (left p s)) (hk : ∀ a t, p s = .ok a t → I t → I (left (k a) t)) :
    I (left (p >>= k) s) := by
  unfold left at h ⊢
  rw [bind_apply]
  cases hp : p s with
  | ok a t =>
      rw [hp] at h
      exact hk a t hp h
  | error e t =>
      rw [hp] at h
      exact h

/-- Throwing at the end changes nothing any more. -/
theorem left_bind_throw (p : EStateM ε σ α) (e : α → ε) (s : σ) :
    left (p >>= fun a => (throw (e a) : EStateM ε σ β)) s = left p s := by
  unfold left
  rw [bind_apply]
  cases p s <;> rfl

theorem left_attempt {I : σ → Prop} {p : EStateM ε σ α} {handle : ε → EStateM ε σ α} {s : σ}
    (h : I (left p s)) (hhandle : ∀ e t, p s = .error e t → I t → I (left (handle e) t)) :
    I (left (attempt p handle) s) := by
  cases hp : p s with
  | ok a t =>
      rw [left_ok hp] at h
      rwa [left_ok (attempt_of_ok hp)]
  | error e t =>
      rw [left_error hp] at h
      have hleft : left (attempt p handle) s = left (handle e) t :=
        left_congr (attempt_of_error hp)
      rw [hleft]
      exact hhandle e t hp h

/-! ## What a program may throw -/

/-- Whatever `p` throws is a `P`. -/
def OnlyThrows (P : ε → Prop) (p : EStateM ε σ α) : Prop := ∀ s e s', p s = .error e s' → P e

section OnlyThrows

variable {P : ε → Prop} {p : EStateM ε σ α}

theorem OnlyThrows.pure (a : α) : OnlyThrows P (pure a : EStateM ε σ α) := by
  rintro s e s' ⟨⟩

theorem OnlyThrows.look (g : σ → α) : OnlyThrows P (look g : EStateM ε σ α) := by
  rintro s e s' ⟨⟩

theorem OnlyThrows.update (f : σ → σ) : OnlyThrows P (update f : EStateM ε σ Unit) := by
  rintro s e s' ⟨⟩

theorem OnlyThrows.throw {e : ε} (h : P e) : OnlyThrows P (throw e : EStateM ε σ α) := by
  rintro s e' s' ⟨⟩
  exact h

theorem OnlyThrows.bind {k : α → EStateM ε σ β} (h : OnlyThrows P p)
    (hk : ∀ a, OnlyThrows P (k a)) : OnlyThrows P (p >>= k) := by
  intro s e s' hrun
  rcases bind_error.mp hrun with hrun | ⟨a, t, -, hrun⟩
  · exact h s e s' hrun
  · exact hk a t e s' hrun

theorem OnlyThrows.doIf {c : Prop} [Decidable c] {q : EStateM ε σ Unit} (h : OnlyThrows P q) :
    OnlyThrows P (doIf c q) := by
  unfold Throwing.doIf
  split
  · exact h
  · exact OnlyThrows.pure ()

end OnlyThrows

/-! ## What a program may touch -/

/-- However `p` ends, it has moved the state along `R`. -/
def Frame (R : σ → σ → Prop) (p : EStateM ε σ α) : Prop := ∀ s, R s (left p s)

section Frames

variable {R : σ → σ → Prop} {p : EStateM ε σ α}

theorem Frame.ok (h : Frame R p) {s s' : σ} {a : α} (hp : p s = .ok a s') : R s s' :=
  left_ok hp ▸ h s

theorem Frame.error (h : Frame R p) {s s' : σ} {e : ε} (hp : p s = .error e s') : R s s' :=
  left_error hp ▸ h s

theorem Frame.mono {R' : σ → σ → Prop} (h : Frame R p) (hsub : ∀ s s', R s s' → R' s s') :
    Frame R' p := fun s => hsub s _ (h s)

theorem Frame.update {f : σ → σ} (h : ∀ s, R s (f s)) :
    Frame R (update f : EStateM ε σ Unit) := h

variable [IsPreorder σ R]

theorem Frame.pure (a : α) : Frame R (pure a : EStateM ε σ α) := fun s => refl_of R s

theorem Frame.throw (e : ε) : Frame R (throw e : EStateM ε σ α) := fun s => refl_of R s

theorem Frame.look (g : σ → α) : Frame R (look g : EStateM ε σ α) := fun s => refl_of R s

theorem Frame.doIf {c : Prop} [Decidable c] {q : EStateM ε σ Unit} (h : Frame R q) :
    Frame R (doIf c q) := by
  unfold Throwing.doIf
  split
  · exact h
  · exact Frame.pure ()

theorem Frame.bind {k : α → EStateM ε σ β} (h : Frame R p) (hk : ∀ a, Frame R (k a)) :
    Frame R (p >>= k) := by
  intro s
  unfold left
  rw [bind_apply]
  cases hp : p s with
  | ok a t => exact trans_of R (h.ok hp) (hk a t)
  | error e t => exact h.error hp

theorem Frame.attempt {handle : ε → EStateM ε σ α} (h : Frame R p)
    (hhandle : ∀ e, Frame R (handle e)) : Frame R (attempt p handle) := by
  intro s
  cases hp : p s with
  | ok a t =>
      rw [left_ok (attempt_of_ok hp)]
      exact h.ok hp
  | error e t =>
      unfold left
      rw [attempt_of_error hp]
      exact trans_of R (h.error hp) (hhandle e t)

theorem Frame.always {last : EStateM ε σ Unit} (h : Frame R p) (hlast : Frame R last) :
    Frame R (always p last) := by
  intro s
  rw [left_always]
  exact trans_of R (h s) (hlast (left p s))

end Frames

/-! ## What a program keeps -/

/-- `f` has the same value before and after. -/
def Keeps {τ : Type} (f : σ → τ) (s s' : σ) : Prop := f s' = f s

instance {τ : Type} (f : σ → τ) : IsPreorder σ (Keeps f) where
  refl _ := rfl
  trans _ _ _ h h' := Eq.trans h' h

theorem Frame.left_eq {τ : Type} {f : σ → τ} {p : EStateM ε σ α} (h : Frame (Keeps f) p) (s : σ) :
    f (left p s) = f s := h s

/-- If `I` holds before, it holds after. -/
def Upholds (I : σ → Prop) (s s' : σ) : Prop := I s → I s'

instance (I : σ → Prop) : IsPreorder σ (Upholds I) where
  refl _ h := h
  trans _ _ _ h h' hs := h' (h hs)

theorem Keeps.upholds {τ : Type} {f : σ → τ} {J : τ → Prop} {s s' : σ} (h : Keeps f s s') :
    Upholds (fun s => J (f s)) s s' := by
  intro hs
  rw [show f s' = f s from h]
  exact hs

end Throwing
