import BTHomeWritable.Lib.HalfEven
import BTHomeWritable.Lib.LittleEndian
import BTHomeWritable.Receiver.Objects
import Mathlib.Tactic.GCongr

/-!
# Numbers on the receiver

What `protocol.py` makes of a number that a user sets and of the bytes a device
answers with, over exact rationals: of `ObjectKind` what the numbers need.

`intToBytes` and `intFromBytes` are Python's `to_bytes` and `from_bytes`, which raise
where a number does not fit its bytes; they are the library's integers as bytes.
`encodeScaled` divides by the factor and rounds half to even, as `round` does.

Within the range nothing overflows (`encodeScaled_ok`), a number comes back to within
half a step (`abs_decodeScaled_sub_le`), and bytes come back as they are
(`encodeScaled_decodeScaled`).
-/

namespace BTHomeWritable.Receiver

open HalfEven

structure ObjectKind where
  length : ℕ
  signed : Bool
  factor : ℚ

/-- The smallest value the encoding can carry. -/
def ObjectKind.minimum (kind : ObjectKind) : ℚ :=
  if !kind.signed then 0 else -(2 ^ (8 * kind.length - 1)) * kind.factor

def ObjectKind.maximum (kind : ObjectKind) : ℚ :=
  let bits := 8 * kind.length - if kind.signed then 1 else 0
  (2 ^ bits - 1) * kind.factor

/-- The smallest number `int.to_bytes` takes. -/
def rangeStart (length : ℕ) (signed : Bool) : ℤ := if signed then -2 ^ (8 * length - 1) else 0

/-- The smallest number above them that it does not take. -/
def rangeStop (length : ℕ) (signed : Bool) : ℤ :=
  if signed then 2 ^ (8 * length - 1) else 2 ^ (8 * length)

/-- `int.to_bytes(length, "little", signed=signed)`. -/
def intToBytes (n : ℤ) (length : ℕ) (signed : Bool) : Except PyError Bytes :=
  if rangeStart length signed ≤ n ∧ n < rangeStop length signed then
    .ok (LittleEndian.toLE length (BitVec.ofInt (8 * length) n).toNat)
  else .error .overflowError

/-- `int.from_bytes(value, "little", signed=signed)`. -/
def intFromBytes (value : Bytes) (signed : Bool) : ℤ :=
  let bits := BitVec.ofNat (8 * value.length) (LittleEndian.ofLE value)
  if signed then bits.toInt else bits.toNat

/-- `encode_scaled`. -/
def encodeScaled (value : ℚ) (kind : ObjectKind) : Except PyError Bytes :=
  intToBytes (halfEven (value / kind.factor)) kind.length kind.signed

/-- `decode_scaled`. -/
def decodeScaled (value : Bytes) (kind : ObjectKind) : ℚ :=
  intFromBytes value kind.signed * kind.factor

variable {length : ℕ} {signed : Bool} {n : ℤ} {kind : ObjectKind}

/-! ## Whole numbers as bytes -/

theorem two_pow_eight_mul (length : ℕ) : 2 ^ (8 * length) = 256 ^ length := by
  rw [pow_mul]
  norm_num

/-- The bits of a string of bytes are those that were written into it. -/
theorem intFromBytes_toLE (bits : BitVec (8 * length)) (signed : Bool) :
    intFromBytes (LittleEndian.toLE length bits.toNat) signed =
      if signed then bits.toInt else bits.toNat := by
  have hlt : bits.toNat < 256 ^ length := two_pow_eight_mul length ▸ bits.isLt
  unfold intFromBytes
  rw [LittleEndian.length_toLE, LittleEndian.ofLE_toLE hlt, BitVec.ofNat_toNat, BitVec.setWidth_eq]

theorem intFromBytes_eq (value : Bytes) (signed : Bool) :
    intFromBytes value signed = if signed then
      (BitVec.ofNat (8 * value.length) (LittleEndian.ofLE value)).toInt
      else LittleEndian.ofLE value := by
  have hlt : LittleEndian.ofLE value < 2 ^ (8 * value.length) :=
    two_pow_eight_mul value.length ▸ LittleEndian.ofLE_lt value
  simp only [intFromBytes, BitVec.toNat_ofNat, Nat.mod_eq_of_lt hlt]

theorem length_intToBytes {b : Bytes} (h : intToBytes n length signed = .ok b) :
    b.length = length := by
  unfold intToBytes at h
  split at h
  · obtain rfl := Except.ok.inj h
    exact LittleEndian.length_toLE _ _
  · exact absurd h (by simp)

/-- What is written is read back. -/
theorem intFromBytes_of_intToBytes (hlength : 1 ≤ length) {b : Bytes}
    (h : intToBytes n length signed = .ok b) : intFromBytes b signed = n := by
  unfold intToBytes at h
  split at h
  · rename_i hrange
    obtain rfl := Except.ok.inj h
    rw [intFromBytes_toLE]
    cases signed with
    | true => exact BitVec.toInt_ofInt_eq_self (by omega) hrange.1 hrange.2
    | false =>
        obtain ⟨hstart, hstop⟩ := hrange
        simp only [rangeStart, rangeStop, Bool.false_eq_true, if_false] at hstart hstop ⊢
        rw [BitVec.toNat_ofInt, Int.emod_eq_of_lt hstart (by exact_mod_cast hstop)]
        exact Int.toNat_of_nonneg hstart
  · exact absurd h (by simp)

/-- Whatever is read is in range, and is written as the bytes it was read from. -/
theorem intToBytes_intFromBytes (value : Bytes) (signed : Bool) :
    intToBytes (intFromBytes value signed) value.length signed = .ok value := by
  have hlt : LittleEndian.ofLE value < 2 ^ (8 * value.length) :=
    two_pow_eight_mul value.length ▸ LittleEndian.ofLE_lt value
  have hbytes : ∀ bits : BitVec (8 * value.length), bits.toNat = LittleEndian.ofLE value →
      LittleEndian.toLE value.length bits.toNat = value := by
    intro bits hbits
    rw [hbits, LittleEndian.toLE_ofLE]
  rw [intFromBytes_eq]
  unfold intToBytes
  cases signed with
  | true =>
      simp only [rangeStart, rangeStop, if_true]
      rw [if_pos ⟨BitVec.le_toInt _, BitVec.toInt_lt⟩, BitVec.ofInt_toInt,
        hbytes _ (by rw [BitVec.toNat_ofNat, Nat.mod_eq_of_lt hlt])]
  | false =>
      have hstop : (LittleEndian.ofLE value : ℤ) < 2 ^ (8 * value.length) := by exact_mod_cast hlt
      simp only [rangeStart, rangeStop, Bool.false_eq_true, if_false]
      rw [if_pos ⟨Int.natCast_nonneg _, hstop⟩, BitVec.ofInt_natCast,
        hbytes _ (by rw [BitVec.toNat_ofNat, Nat.mod_eq_of_lt hlt])]

/-! ## Scaled numbers -/

theorem minimum_eq (kind : ObjectKind) :
    kind.minimum = rangeStart kind.length kind.signed * kind.factor := by
  unfold ObjectKind.minimum rangeStart
  cases kind.signed <;> simp

theorem maximum_eq (kind : ObjectKind) :
    kind.maximum = ((rangeStop kind.length kind.signed - 1 : ℤ) : ℚ) * kind.factor := by
  unfold ObjectKind.maximum rangeStop
  cases kind.signed <;> simp

/-- Between the ends of the range nothing overflows. -/
theorem encodeScaled_ok (hfactor : 0 < kind.factor) {x : ℚ} (hmin : kind.minimum ≤ x)
    (hmax : x ≤ kind.maximum) : ∃ b, encodeScaled x kind = .ok b := by
  rw [minimum_eq, ← le_div_iff₀ hfactor] at hmin
  rw [maximum_eq, ← div_le_iff₀ hfactor] at hmax
  have hstart := le_halfEven hmin
  have hstop := halfEven_le hmax
  exact ⟨_, if_pos ⟨hstart, by omega⟩⟩

/-- A number comes back to within half a step. -/
theorem abs_decodeScaled_sub_le (hlength : 1 ≤ kind.length) (hfactor : 0 < kind.factor) {x : ℚ}
    {b : Bytes} (h : encodeScaled x kind = .ok b) :
    |decodeScaled b kind - x| ≤ kind.factor / 2 := by
  have hraw : intFromBytes b kind.signed = halfEven (x / kind.factor) :=
    intFromBytes_of_intToBytes hlength h
  have hx : x / kind.factor * kind.factor = x := div_mul_cancel₀ x hfactor.ne'
  calc |decodeScaled b kind - x|
      = |((halfEven (x / kind.factor) : ℚ) - x / kind.factor) * kind.factor| := by
        rw [decodeScaled, hraw, sub_mul, hx]
    _ = |(halfEven (x / kind.factor) : ℚ) - x / kind.factor| * kind.factor := by
        rw [abs_mul, abs_of_pos hfactor]
    _ ≤ 1 / 2 * kind.factor := by
        gcongr
        exact abs_halfEven_sub_le _
    _ = kind.factor / 2 := by ring

/-- Bytes come back as they are. -/
theorem encodeScaled_decodeScaled (hfactor : 0 < kind.factor) {b : Bytes}
    (hb : b.length = kind.length) : encodeScaled (decodeScaled b kind) kind = .ok b := by
  have hraw : decodeScaled b kind / kind.factor = intFromBytes b kind.signed :=
    mul_div_cancel_right₀ _ hfactor.ne'
  rw [encodeScaled, hraw, halfEven_intCast, ← hb]
  exact intToBytes_intFromBytes b kind.signed

end BTHomeWritable.Receiver
