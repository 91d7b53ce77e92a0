import Mathlib.Data.Int.ModEq
import Mathlib.Tactic.Linarith

/-!
# Counters on a circle

A counter of fixed width wraps: its values lie on a circle of `m` points, and
"ahead" only means "fewer steps forward than backward".  What a run needs is
the unwrapped picture: every value `c` comes from a *position* `p` on the
number line, `c = p % m`, and moving forward along the circle moves the
position up by the same number of steps.

* `forward m a b` is the number of steps from `a` forward to `b`;
* `add_forward_mod`: taking those steps arrives at `b`;
* `le_of_return`: a value seen at position `p` comes round again only `m`
  positions later, so a window of `w` steps cannot reach it before the position
  has moved up by `m - w`.
-/

namespace Circular

variable {m : ℕ}

/-- Steps forward from `a` to `b` on a circle of `m` values. -/
def forward (m : ℕ) (a b : ℤ) : ℕ := ((b - a) % m).toNat

theorem forward_cast (hm : 0 < m) (a b : ℤ) : (forward m a b : ℤ) = (b - a) % m := by
  have hnonneg : 0 ≤ (b - a) % m := Int.emod_nonneg _ (by exact_mod_cast hm.ne')
  unfold forward
  omega

/-- Only the place of `a` on the circle matters. -/
theorem forward_mod_left (a b : ℤ) : forward m (a % m) b = forward m a b := by
  simp [forward, Int.sub_emod, Int.emod_emod_of_dvd]

theorem forward_mod_right (a b : ℤ) : forward m a (b % m) = forward m a b := by
  simp [forward, Int.sub_emod, Int.emod_emod_of_dvd]

/-- Between two positions fewer than `m` apart, `forward` is their difference. -/
theorem forward_positions {p q : ℕ} (hpq : p ≤ q) (hlt : q - p < m) :
    forward m ((p % m : ℕ) : ℤ) ((q % m : ℕ) : ℤ) = q - p := by
  rw [Int.natCast_mod, Int.natCast_mod, forward_mod_left, forward_mod_right]
  have hmod : ((q : ℤ) - p) % m = (q : ℤ) - p :=
    Int.emod_eq_of_lt (by omega) (by omega)
  unfold forward
  omega

/-- Taking `forward m a b` steps from position `p` over `a` arrives over `b`. -/
theorem add_forward_mod (hm : 0 < m) {p a b : ℕ} (ha : a = p % m) (hb : b < m) :
    (p + forward m a b) % m = b := by
  subst ha
  -- in the integers, where the remainder of a difference may be taken apart
  have hcast : (forward m ((p % m : ℕ) : ℤ) b : ℤ) = ((b : ℤ) - p) % m := by
    rw [forward_cast hm, Int.natCast_mod, Int.sub_emod, Int.emod_emod_of_dvd _ (dvd_refl _),
      ← Int.sub_emod]
  have hmod : (((p + forward m ((p % m : ℕ) : ℤ) b : ℕ) : ℤ)) % m = b := by
    calc (((p + forward m ((p % m : ℕ) : ℤ) b : ℕ) : ℤ)) % m
        = ((p : ℤ) + ((b : ℤ) - p) % m) % m := by rw [Nat.cast_add, hcast]
      _ = ((p : ℤ) + ((b : ℤ) - p)) % m := by
          rw [Int.add_emod, Int.emod_emod_of_dvd _ (dvd_refl _), ← Int.add_emod]
      _ = (b : ℤ) % m := by rw [add_sub_cancel]
      _ = b := Int.emod_eq_of_lt (by omega) (by exact_mod_cast hb)
  exact_mod_cast hmod

/-- Two positions over one value are a whole number of turns apart. -/
theorem add_le_of_mod_eq {p q : ℕ} (hpq : p < q) (h : p % m = q % m) : p + m ≤ q := by
  have hdvd : m ∣ q - p := (Nat.modEq_iff_dvd' hpq.le).mp h
  have hle : m ≤ q - p := Nat.le_of_dvd (by omega) hdvd
  omega

/-- Positions that differ by less than a turn lie over different values. -/
theorem mod_ne_mod {p q : ℕ} (hpq : p < q) (hlt : q < p + m) : p % m ≠ q % m := by
  intro h
  exact absurd (add_le_of_mod_eq hpq h) (by omega)

/-- The value seen at position `p` is met again from a later position `q` only
after a whole turn. -/
theorem le_of_return (hm : 0 < m) {p q a b : ℕ} (hpq : p ≤ q) (ha : a = q % m)
    (hb : b = p % m) (hmove : 0 < forward m a b) : p + m ≤ q + forward m a b := by
  have hblt : b < m := hb ▸ Nat.mod_lt _ hm
  have harrive : (q + forward m a b) % m = b := add_forward_mod hm ha hblt
  exact add_le_of_mod_eq (by omega) (by rw [harrive, hb])

end Circular
