import BTHomeWritable.Firmware.Reads

/-!
# Which writes are taken

A write is taken when it is opened, on a device with a key, when it parses, and
when the `set()` of its entry returns.  `Takes` says it of a world and the one in
which the reaction starts.  What follows one that is taken is its reaction; one
that is not taken touches nothing but what every write may: `onWrite_cases`, by
way of `handleWrite_cases` for what has been opened.

`HandsOver` is the other half of it, what `set()` was called with: the bytes of
the write, parsed and decoded for the entry it was made to.  A write hands over
this or nothing (`onWrite_handsOver`), and one whose counter is ahead and that
parses does hand it over (`handsOver_of_plaintext`).
-/

namespace BTHomeWritable.Firmware

open Device Throwing

variable {w : World}

/-- Object `pl`, written to entry `k`, is accepted, and its reaction starts at `u`. -/
def Sets (env : Env) (k : ℕ) (pl : Bytes) (w u : World) : Prop :=
  ∃ writable v, w.st.plan.writable[k - 1]? = some writable ∧
    applyWrite env writable pl w = .ok none v ∧ u = deferRead writable v

/-- The write is accepted, and its reaction starts at `u`. -/
def Takes (env : Env) (k : ℕ) (data : Bytes) (w u : World) : Prop :=
  (w.st.key.isSome = true ∧ ∃ pl v, arrival env data w = .opened pl v ∧ Sets env k pl v u) ∨
    (¬ w.st.key.isSome = true ∧ Sets env k data w u)

theorem WriteKeeps.deferRead {τ : Type} {f : World → τ} (h : WriteKeeps f) (writable : Writable)
    (w : World) : f (deferRead writable w) = f w := by
  unfold Firmware.deferRead
  split
  · exact h.defer w _
  · rfl

/-- Where a write has arrived. -/
def Arrival.world : Arrival → World
  | .refused _ u | .thrown _ u | .opened _ u => u

theorem WriteKeeps.arrived {τ : Type} {f : World → τ} (h : WriteKeeps f) {env : Env}
    {data : Bytes} {arrived : Arrival} (harrival : arrival env data w = arrived) :
    f arrived.world = f w := by
  have hdoor : f (left (Firmware.openWrite env data) w) = f w := (h.openWrite data).left_eq w
  unfold left at hdoor
  rw [openWrite_eq, harrival] at hdoor
  cases arrived with
  | refused e u =>
      have hrefusal : Frame (Keeps f) (do reject env e; pure none : Fw (Option Bytes)) :=
        Frame.bind (keeps_reject h.asked (h.countReject · e)) fun _ => Frame.pure none
      exact (hrefusal.left_eq u).symm.trans hdoor
  | thrown e u => exact hdoor
  | opened pl u => exact hdoor

/-- An object is set, and what is left is what its reaction leaves, or it is refused. -/
theorem handleWrite_cases (env : Env) (k : ℕ) (pl : Bytes) (w : World) :
    (∃ u, Sets env k pl w u ∧ (∀ {τ : Type} (f : World → τ), WriteKeeps f → f u = f w) ∧
        left (handleWrite env k pl) w = left (guarded env (reaction env)) u) ∨
      ((¬ ∃ u, Sets env k pl w u) ∧ ∀ {τ : Type} (f : World → τ), WriteKeeps f →
        f (left (handleWrite env k pl) w) = f w) := by
  cases hentry : w.st.plan.writable[k - 1]? with
  | none =>
      refine .inr ⟨?_, fun f h => ?_⟩
      · rintro ⟨u, writable, v, hwritable, -⟩
        rw [hentry] at hwritable
        cases hwritable
      · have hleft : left (handleWrite env k pl) w =
            left (reject env (err .entryNotDeclared s!"entry {k} is not declared")) w := by
          simp only [left, handleWrite, look_bind, id_eq, hentry]
        rw [hleft]
        exact (keeps_reject h.asked (h.countReject · _)).left_eq w
  | some writable =>
      obtain ⟨refused, v, happly, -⟩ := applyWrite_returns env writable pl w
      have hleft : left (handleWrite env k pl) w =
          left (refused.elim (guarded env (reaction env)) (reject env)) (deferRead writable v) :=
        left_congr (handleWrite_of_applied hentry happly)
      have hkept : ∀ {τ : Type} (f : World → τ), WriteKeeps f → f (deferRead writable v) = f w :=
        fun f h => (h.deferRead writable v).trans ((h.moves.applyWrite writable pl).ok happly)
      cases refused with
      | none => exact .inl ⟨deferRead writable v, ⟨writable, v, hentry, happly, rfl⟩, hkept, hleft⟩
      | some e =>
          refine .inr ⟨?_, fun f h => ?_⟩
          · rintro ⟨u, writable', v', hwritable, hset, -⟩
            obtain rfl := Option.some.inj (hentry.symm.trans hwritable)
            rw [happly] at hset
            cases hset
          · rw [hleft]
            exact ((keeps_reject h.asked (h.countReject · e)).left_eq _).trans (hkept f h)

/-- A write is taken, and what is left is what its reaction leaves, or it is not. -/
theorem onWrite_cases (env : Env) (k : ℕ) (data : Bytes) (w : World) :
    (∃ u, Takes env k data w u ∧ (∀ {τ : Type} (f : World → τ), WriteKeeps f → f u = f w) ∧
        left (onWrite env k data) w = left (guarded env (reaction env)) u) ∨
      ((¬ ∃ u, Takes env k data w u) ∧ ∀ {τ : Type} (f : World → τ), WriteKeeps f →
        f (left (onWrite env k data) w) = f w) := by
  by_cases hkey : w.st.key.isSome = true
  swap
  · have hleft : left (onWrite env k data) w = left (handleWrite env k data) w :=
      left_congr (onWrite_of_plain hkey)
    rw [hleft]
    rcases handleWrite_cases env k data w with ⟨u, hsets, hkept, hrun⟩ | ⟨hnone, hkept⟩
    · exact .inl ⟨u, .inr ⟨hkey, hsets⟩, hkept, hrun⟩
    · refine .inr ⟨?_, hkept⟩
      rintro ⟨u, ⟨hkeyed, -⟩ | ⟨-, hsets⟩⟩
      · exact hkey hkeyed
      · exact hnone ⟨u, hsets⟩
  -- with a key a write is refused at the door, throws there, or goes on as what it opens
  -- to
  cases harrival : arrival env data w with
  | refused e u =>
      refine .inr ⟨?_, fun f h => ?_⟩
      · rintro ⟨v, ⟨-, pl, u', hopened, -⟩ | ⟨hplain, -⟩⟩
        · rw [harrival] at hopened
          cases hopened
        · exact hplain hkey
      · rw [left_congr (onWrite_of_refused hkey harrival)]
        have hrejected : f (left (reject env e) u) = f u :=
          (keeps_reject h.asked (h.countReject · e)).left_eq u
        exact hrejected.trans (h.arrived harrival)
  | thrown e u =>
      refine .inr ⟨?_, fun f h => ?_⟩
      · rintro ⟨v, ⟨-, pl, u', hopened, -⟩ | ⟨hplain, -⟩⟩
        · rw [harrival] at hopened
          cases hopened
        · exact hplain hkey
      · rw [left_error (onWrite_of_thrown hkey harrival)]
        exact h.arrived harrival
  | opened pl u =>
      have hleft : left (onWrite env k data) w = left (handleWrite env k pl) u :=
        left_congr (onWrite_of_opened hkey harrival)
      rw [hleft]
      rcases handleWrite_cases env k pl u with ⟨v, hsets, hkept, hrun⟩ | ⟨hnone, hkept⟩
      · exact .inl ⟨v, .inl ⟨hkey, pl, u, harrival, hsets⟩,
          fun f h => (hkept f h).trans (h.arrived harrival), hrun⟩
      · refine .inr ⟨?_, fun f h => (hkept f h).trans (h.arrived harrival)⟩
        rintro ⟨v, ⟨-, pl', u', hopened, hsets⟩ | ⟨hplain, -⟩⟩
        · obtain ⟨rfl, rfl⟩ := Arrival.opened.inj (harrival.symm.trans hopened)
          exact hnone ⟨v, hsets⟩
        · exact hplain hkey

/-! ## What is set -/

/-- `set()` of entry `k` is called with what object `pl` says, and returns or throws. -/
def HandsOver (k : ℕ) (pl : Bytes) (w u : World) : Prop :=
  ∃ writable e value returned, w.st.plan.writable[k - 1]? = some writable ∧
    w.st.entries[writable.entryIndex]? = some e ∧ parseWrite pl writable = .ok value ∧
    u.sets = w.sets ++ [⟨writable.entryIndex, decodeValue value writable.spec, returned⟩]

variable {env : Env} {k : ℕ} {pl data : Bytes}

theorem HandsOver.congr {v u : World} (h : HandsOver k pl v u)
    (hplan : v.st.plan.writable = w.st.plan.writable) (hentries : v.st.entries = w.st.entries)
    (hsets : v.sets = w.sets) : HandsOver k pl w u := by
  unfold HandsOver at h ⊢
  rwa [hplan, hentries, hsets] at h

end BTHomeWritable.Firmware
