import Mathlib.Tactic.Ring

/-!
# Little-endian numbers

`toLE k n` writes the low `k` bytes of `n`, least significant first, and `ofLE`
reads such a string back.  The two are inverse to each other on numbers below
`256 ^ k` and on strings of `k` bytes.
-/

/-- A string of bytes. -/
abbrev Bytes := List UInt8

namespace LittleEndian

/-- The low `k` bytes of `n`. -/
def toLE : ℕ → ℕ → Bytes
  | 0, _ => []
  | k + 1, n => UInt8.ofNat n :: toLE k (n / 256)

/-- The number a string of bytes stands for. -/
def ofLE : Bytes → ℕ
  | [] => 0
  | b :: rest => b.toNat + 256 * ofLE rest

@[simp] theorem length_toLE (k n : ℕ) : (toLE k n).length = k := by
  induction k generalizing n with
  | zero => rfl
  | succ k ih => simp [toLE, ih]

theorem ofLE_toLE_mod (k n : ℕ) : ofLE (toLE k n) = n % 256 ^ k := by
  induction k generalizing n with
  | zero => simp [toLE, ofLE, Nat.mod_one]
  | succ k ih =>
      calc ofLE (toLE (k + 1) n) = n % 256 + 256 * ofLE (toLE k (n / 256)) := by
            simp [toLE, ofLE]
        _ = n % 256 + 256 * (n / 256 % 256 ^ k) := by rw [ih]
        _ = n % 256 ^ (k + 1) := by rw [pow_succ', Nat.mod_mul]

theorem ofLE_toLE {k n : ℕ} (h : n < 256 ^ k) : ofLE (toLE k n) = n := by
  rw [ofLE_toLE_mod, Nat.mod_eq_of_lt h]

theorem ofLE_lt (bs : Bytes) : ofLE bs < 256 ^ bs.length := by
  induction bs with
  | nil => simp [ofLE]
  | cons b rest ih =>
      have hb : b.toNat < 256 := b.toNat_lt
      rw [ofLE, List.length_cons, pow_succ]
      omega

theorem toLE_ofLE (bs : Bytes) : toLE bs.length (ofLE bs) = bs := by
  induction bs with
  | nil => rfl
  | cons b rest ih =>
      have hb : b.toNat < 256 := b.toNat_lt
      have hlow : UInt8.ofNat (b.toNat + 256 * ofLE rest) = b := by
        apply UInt8.toNat.inj
        simp
      have hhigh : (b.toNat + 256 * ofLE rest) / 256 = ofLE rest := by omega
      rw [List.length_cons, ofLE, toLE, hlow, hhigh, ih]

/-- Numbers that fit are told apart by their bytes. -/
theorem toLE_inj {k n n' : ℕ} (hn : n < 256 ^ k) (hn' : n' < 256 ^ k)
    (h : toLE k n = toLE k n') : n = n' := by
  calc n = ofLE (toLE k n) := (ofLE_toLE hn).symm
    _ = ofLE (toLE k n') := by rw [h]
    _ = n' := ofLE_toLE hn'

theorem toLE_zero (k : ℕ) : toLE k 0 = List.replicate k 0 := by
  induction k with
  | zero => rfl
  | succ k ih => rw [toLE, Nat.zero_div, ih, List.replicate_succ]; rfl

theorem toLE_add (j k n : ℕ) : toLE (j + k) n = toLE j n ++ toLE k (n / 256 ^ j) := by
  induction j generalizing n with
  | zero => simp [toLE]
  | succ j ih =>
      have hdiv : n / 256 / 256 ^ j = n / 256 ^ (j + 1) := by
        rw [Nat.div_div_eq_div_mul, pow_succ']
      rw [Nat.succ_add, toLE, ih, hdiv, toLE, List.cons_append]

/-- The low bytes are zero exactly for the multiples. -/
theorem toLE_eq_zeros_iff (k n : ℕ) : toLE k n = List.replicate k 0 ↔ 256 ^ k ∣ n := by
  rw [Nat.dvd_iff_mod_eq_zero, ← ofLE_toLE_mod]
  constructor
  · intro hzeros
    rw [hzeros, ← toLE_zero, ofLE_toLE (Nat.pow_pos (by decide))]
  · intro hzero
    calc toLE k n = toLE (toLE k n).length (ofLE (toLE k n)) := (toLE_ofLE _).symm
      _ = List.replicate k 0 := by rw [length_toLE, hzero, toLE_zero]

/-- Reading from the most significant end, one byte at a time. -/
theorem foldl_reverse_eq_ofLE (bs : Bytes) :
    bs.reverse.foldl (fun v b => v * 256 + b.toNat) 0 = ofLE bs := by
  induction bs with
  | nil => rfl
  | cons b rest ih =>
      rw [List.reverse_cons, List.foldl_append, ih, ofLE]
      simp only [List.foldl_cons, List.foldl_nil]
      ring

/-- Picking out the bytes by shifts and masks. -/
theorem map_range_shift_eq_toLE (k n : ℕ) :
    ((List.range k).map fun i => UInt8.ofNat ((n >>> (8 * i)) % 256)) = toLE k n := by
  induction k generalizing n with
  | zero => rfl
  | succ k ih =>
      rw [List.range_succ_eq_map, List.map_cons, List.map_map, toLE, ← ih]
      congr 1
      · apply UInt8.toNat.inj
        simp
      · apply List.map_congr_left
        intro i _
        have hshift : n >>> (8 * (i + 1)) = (n / 256) >>> (8 * i) := by
          calc n >>> (8 * (i + 1)) = n / 2 ^ (8 * (i + 1)) := Nat.shiftRight_eq_div_pow _ _
            _ = n / (256 * 2 ^ (8 * i)) := by rw [Nat.mul_add, Nat.pow_add, Nat.mul_comm]
            _ = n / 256 / 2 ^ (8 * i) := (Nat.div_div_eq_div_mul _ _ _).symm
            _ = (n / 256) >>> (8 * i) := (Nat.shiftRight_eq_div_pow _ _).symm
        simp [hshift]

end LittleEndian
