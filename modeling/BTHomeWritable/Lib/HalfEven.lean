import Mathlib.Algebra.Order.Round
import Mathlib.Data.Rat.Floor
import Mathlib.Tactic.Linarith

/-!
# Rounding to the nearest integer, ties to the even one

`halfEven q` is an integer nearest to `q`.  It keeps integers and stays between
any two of them that `q` is between.
-/

namespace HalfEven

/-- The integer nearest to `q`, the even one of two. -/
def halfEven (q : ℚ) : ℤ :=
  let below := ⌊q⌋
  if q - below < 1 / 2 then below
  else if 1 / 2 < q - below then below + 1
  else if below % 2 = 0 then below
  else below + 1

theorem abs_halfEven_sub_le (q : ℚ) : |(halfEven q : ℚ) - q| ≤ 1 / 2 := by
  have hlow : (⌊q⌋ : ℚ) ≤ q := Int.floor_le q
  have hhigh : q < ⌊q⌋ + 1 := Int.lt_floor_add_one q
  rw [abs_le]
  simp only [halfEven]
  split
  · constructor <;> linarith
  split
  · push_cast
    constructor <;> linarith
  split
  · constructor <;> linarith
  · push_cast
    constructor <;> linarith

theorem halfEven_intCast (n : ℤ) : halfEven n = n := by
  simp [halfEven]

theorem le_halfEven {q : ℚ} {n : ℤ} (h : (n : ℚ) ≤ q) : n ≤ halfEven q := by
  have hnear := (abs_le.mp (abs_halfEven_sub_le q)).1
  have hlt : (n : ℚ) < halfEven q + 1 := by linarith
  exact Int.lt_add_one_iff.mp (by exact_mod_cast hlt)

theorem halfEven_le {q : ℚ} {n : ℤ} (h : q ≤ n) : halfEven q ≤ n := by
  have hnear := (abs_le.mp (abs_halfEven_sub_le q)).2
  have hlt : (halfEven q : ℚ) < n + 1 := by linarith
  exact Int.lt_add_one_iff.mp (by exact_mod_cast hlt)

end HalfEven
