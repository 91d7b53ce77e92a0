import BTHomeWritable.Lib.LittleEndian
import Mathlib.Tactic.IntervalCases
import Mathlib.Tactic.Positivity
import Mathlib.Tactic.Zify

/-!
# Integers as bytes

`toBytes k v` writes the integer `v` in `k` bytes, the least significant first,
and `ofBytes` reads it back, as an unsigned number or in two's complement.  The
bytes of an integer are the same for both; which of the two they are read as
decides which integers come back.

Programs that compute with 32-bit integers get at the bytes by shifting and
masking (`shiftAndMask`), which comes to the same for up to four of them, also
for integers that 32 bits do not hold.
-/

namespace TwosComplement

open LittleEndian

/-- The low `k` bytes of `v`. -/
def toBytes (k : ℕ) (v : ℤ) : Bytes := toLE k (v % (256 ^ k : ℕ)).toNat

def ofBytes (signed : Bool) (bs : Bytes) : ℤ :=
  if signed && decide (256 ^ bs.length ≤ 2 * ofLE bs) then (ofLE bs : ℤ) - (256 ^ bs.length : ℕ)
  else ofLE bs

/-- The integers that `k` bytes hold. -/
def Fits (signed : Bool) (k : ℕ) (v : ℤ) : Prop :=
  if signed then -(256 ^ k : ℕ) ≤ 2 * v ∧ 2 * v < (256 ^ k : ℕ) else 0 ≤ v ∧ v < (256 ^ k : ℕ)

variable {signed : Bool} {k : ℕ} {v : ℤ} {bs : Bytes}

instance : Decidable (Fits signed k v) := by
  unfold Fits
  infer_instance

@[simp] theorem length_toBytes (k : ℕ) (v : ℤ) : (toBytes k v).length = k := length_toLE k _

/-- What bytes are read as differs by a turn, or not at all. -/
theorem ofBytes_emod (signed : Bool) (bs : Bytes) :
    ofBytes signed bs % (256 ^ bs.length : ℕ) = ofLE bs := by
  have hlt : (ofLE bs : ℤ) < (256 ^ bs.length : ℕ) := by exact_mod_cast ofLE_lt bs
  have hlow : (ofLE bs : ℤ) % (256 ^ bs.length : ℕ) = ofLE bs :=
    Int.emod_eq_of_lt (Int.natCast_nonneg _) hlt
  unfold ofBytes
  split
  · rw [Int.sub_emod_right, hlow]
  · exact hlow

theorem toBytes_ofBytes (signed : Bool) (bs : Bytes) :
    toBytes bs.length (ofBytes signed bs) = bs := by
  unfold toBytes
  rw [ofBytes_emod, Int.toNat_natCast, toLE_ofLE]

theorem ofLE_toBytes (k : ℕ) (v : ℤ) : (ofLE (toBytes k v) : ℤ) = v % (256 ^ k : ℕ) := by
  have hpos : (0 : ℤ) < (256 ^ k : ℕ) := by positivity
  have hlt : (v % (256 ^ k : ℕ)).toNat < 256 ^ k := by
    have hmod := Int.emod_lt_of_pos v hpos
    have hnonneg := Int.emod_nonneg v hpos.ne'
    omega
  rw [toBytes, ofLE_toLE hlt, Int.toNat_of_nonneg (Int.emod_nonneg v hpos.ne')]

theorem ofBytes_toBytes (h : Fits signed k v) : ofBytes signed (toBytes k v) = v := by
  have hlow := ofLE_toBytes k v
  have hpos : (0 : ℤ) < (256 ^ k : ℕ) := by positivity
  unfold Fits at h
  unfold ofBytes
  rw [length_toBytes]
  cases signed with
  | false =>
      obtain ⟨hnonneg, hlt⟩ := h
      rw [Int.emod_eq_of_lt hnonneg hlt] at hlow
      simpa using hlow
  | true =>
      obtain ⟨hmin, hmax⟩ : -(256 ^ k : ℕ) ≤ 2 * v ∧ 2 * v < (256 ^ k : ℕ) := h
      by_cases hneg : v < 0
      · -- a turn up, and back again
        have hturn : v % (256 ^ k : ℕ) = v + (256 ^ k : ℕ) := by
          rw [← Int.add_emod_right, Int.emod_eq_of_lt (by omega) (by omega)]
        rw [hturn] at hlow
        have hupper : 256 ^ k ≤ 2 * ofLE (toBytes k v) := by omega
        simp only [Bool.true_and, decide_eq_true hupper, if_true]
        omega
      · rw [Int.emod_eq_of_lt (by omega) (by omega)] at hlow
        have hlower : ¬ 256 ^ k ≤ 2 * ofLE (toBytes k v) := by omega
        simp only [Bool.true_and, decide_eq_false hlower, Bool.false_eq_true, if_false]
        exact hlow

/-! ## Shifting and masking -/

/-- `(v >> 8 * i) & 255`, in 32 bits. -/
def shiftAndMask (v : ℤ) (i : ℕ) : ℕ :=
  ((BitVec.ofInt 32 v).sshiftRight (8 * i) &&& 255#32).toNat

theorem shiftAndMask_lt (v : ℤ) (i : ℕ) : shiftAndMask v i < 256 := by
  have hand := Nat.and_two_pow_sub_one_eq_mod ((BitVec.ofInt 32 v).sshiftRight (8 * i)).toNat 8
  have hmod : shiftAndMask v i = ((BitVec.ofInt 32 v).sshiftRight (8 * i)).toNat % 256 := by
    simpa [shiftAndMask] using hand
  omega

/-- The bits that a shift brings down are those of the number itself. -/
theorem shiftAndMask_eq {i : ℕ} (hi : i < 4) : (shiftAndMask v i : ℤ) = v / 256 ^ i % 256 := by
  let bits := (BitVec.ofInt 32 v).sshiftRight (8 * i)
  have hshift : bits.toInt = v.bmod 4294967296 / 2 ^ (8 * i) := by
    rw [BitVec.toInt_sshiftRight, BitVec.toInt_ofInt, Int.shiftRight_eq_div_pow]
    norm_cast
  have hmask : shiftAndMask v i = bits.toNat % 256 := by
    have hand := Nat.and_two_pow_sub_one_eq_mod bits.toNat 8
    simpa [shiftAndMask] using hand
  have hbits : bits.toInt + 4294967296 * (bits.toNat : ℤ).bdiv 4294967296 = bits.toNat := by
    rw [BitVec.toInt_eq_toNat_bmod]
    exact Int.bmod_add_bdiv (bits.toNat : ℤ) 4294967296
  have hv : v.bmod 4294967296 + 4294967296 * v.bdiv 4294967296 = v :=
    Int.bmod_add_bdiv v 4294967296
  rw [hmask]
  interval_cases i <;> norm_num at hshift ⊢ <;> omega

/-- The bytes got at by shifting and masking are the bytes. -/
theorem map_shiftAndMask (hk : k ≤ 4) (v : ℤ) :
    ((List.range k).map fun i => UInt8.ofNat (shiftAndMask v i)) = toBytes k v := by
  unfold toBytes
  rw [← map_range_shift_eq_toLE]
  apply List.map_congr_left
  intro i hi
  have hi : i < k := List.mem_range.mp hi
  have hbyte := @shiftAndMask_eq v i (by omega)
  have hlow : v % (256 ^ k : ℕ) / 256 ^ i % 256 = v / 256 ^ i % 256 := by
    interval_cases k <;> interval_cases i <;> omega
  have hnonneg : 0 ≤ v % (256 ^ k : ℕ) := Int.emod_nonneg _ (by positivity)
  congr 1
  zify
  rw [hbyte, ← hlow]
  zify at hnonneg
  rw [Int.toNat_of_nonneg hnonneg, Int.shiftRight_eq_div_pow, pow_mul]
  norm_num

end TwosComplement
