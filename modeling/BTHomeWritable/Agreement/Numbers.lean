import BTHomeWritable.Firmware.Writes
import BTHomeWritable.Receiver.Coordinator
import BTHomeWritable.Receiver.Scaled

/-!
# A number, from the receiver to the device and back

The receiver rounds to a whole number of steps and writes it in two's complement;
the device reads the bytes as an unsigned number, takes `256 ^ n` off the upper
half if the entry is signed, and divides by its scale.

Where the device's scale is one over the receiver's factor the two decode alike
(`decodeNumber_eq_decodeScaled`), so what the receiver's own round trip promises
holds of the number that `set()` gets.  `number_survives` says so of every length,
sign and factor: within half a step, and the same bytes on the way back.
-/

namespace BTHomeWritable.Agreement

open Device Firmware Receiver

/-- `decodeValue(value, w)` of an entry with codec `number`, as a rational. -/
def decodeNumber (value : Bytes) (scale : ℚ) (signed : Bool) : ℚ :=
  let raw := readUint value 0 value.length
  let full := 256 ^ value.length
  ((if signed && decide (full ≤ 2 * raw) then (raw : ℤ) - full else raw : ℤ) : ℚ) / scale

variable {kind : ObjectKind} {value : Bytes}

/-- It is what `decodeValue` hands to `set()`. -/
theorem decodeValue_number {spec : WritableSpec} {scale : ℕ} {signed : Bool}
    (hcodec : spec.codec = .number scale signed) (value : Bytes) :
    ∃ raw, decodeValue value spec = .number raw scale ∧
      (raw : ℚ) / scale = decodeNumber value scale signed := by
  unfold decodeValue
  rw [hcodec]
  exact ⟨_, rfl, rfl⟩

/-- The two conventions for the sign are one. -/
theorem decodeNumber_eq_decodeScaled (value : Bytes) (kind : ObjectKind) :
    decodeNumber value (1 / kind.factor) kind.signed = decodeScaled value kind := by
  have hraw : readUint value 0 value.length = LittleEndian.ofLE value := by
    rw [readUint_eq_ofLE, List.take_length, List.drop_zero]
  have hlt : LittleEndian.ofLE value < 2 ^ (8 * value.length) :=
    two_pow_eight_mul value.length ▸ LittleEndian.ofLE_lt value
  have hsame : (if kind.signed && decide (256 ^ value.length ≤ 2 * LittleEndian.ofLE value) then
      (LittleEndian.ofLE value : ℤ) - (256 ^ value.length : ℕ) else LittleEndian.ofLE value) =
      intFromBytes value kind.signed := by
    rw [intFromBytes_eq]
    cases kind.signed with
    | false => simp
    | true =>
        rw [if_pos rfl, BitVec.toInt_eq_toNat_cond, BitVec.toNat_ofNat, Nat.mod_eq_of_lt hlt,
          two_pow_eight_mul]
        by_cases hupper : 256 ^ value.length ≤ 2 * LittleEndian.ofLE value
        · simp [hupper, Nat.not_lt.mpr hupper]
        · simp [hupper, Nat.not_le.mp hupper]
  unfold decodeNumber decodeScaled
  rw [hraw, ← hsame, div_div_eq_mul_div, div_one]

/-- The device accepts a write of an object that is as long as its entry. -/
theorem parseWrite_encodeObject {w : Writable} {entry : WritableEntry}
    (hid : w.spec.id = entry.objectId) (hfixed : w.spec.variableLength = false)
    (hlength : w.spec.length = some value.length) :
    parseWrite (encodeObject entry value) w = .ok value := by
  simp [parseWrite, encodeObject, hid, hfixed, bytesNeeded, hlength]

/-- What the device makes of the bytes of a number. -/
structure TakesIn (kind : ObjectKind) (w : Writable) (entry : WritableEntry) (b : Bytes) :
    Prop where
  parsed : parseWrite (encodeObject entry b) w = .ok b
  decoded : decodeNumber b (1 / kind.factor) kind.signed = decodeScaled b kind
  handed : ∀ scale : ℕ, w.spec.codec = .number scale kind.signed → (scale : ℚ) = 1 / kind.factor →
    ∃ raw, decodeValue b w.spec = .number raw scale ∧ (raw : ℚ) / scale = decodeScaled b kind

theorem takesIn {w : Writable} {entry : WritableEntry} (hid : w.spec.id = entry.objectId)
    (hfixed : w.spec.variableLength = false) (hlength : w.spec.length = some value.length) :
    TakesIn kind w entry value := by
  refine ⟨?_, decodeNumber_eq_decodeScaled value kind, ?_⟩
  · exact parseWrite_encodeObject hid hfixed hlength
  · intro scale hcodec hscale
    obtain ⟨raw, hhanded, hraw⟩ := decodeValue_number hcodec value
    refine ⟨raw, hhanded, ?_⟩
    rw [hraw, hscale, decodeNumber_eq_decodeScaled]

/-- Every number between the ends of its range survives the trip, and so do all bytes. -/
theorem number_survives (kind : ObjectKind) (hlength : 1 ≤ kind.length) (hfactor : 0 < kind.factor)
    (w : Writable) (entry : WritableEntry) (hid : w.spec.id = entry.objectId)
    (hfixed : w.spec.variableLength = false) (hwidth : w.spec.length = some kind.length) :
    (∀ x, kind.minimum ≤ x → x ≤ kind.maximum → ∃ b, encodeScaled x kind = .ok b ∧
      b.length = kind.length ∧ TakesIn kind w entry b ∧
      |decodeScaled b kind - x| ≤ kind.factor / 2) ∧
    ∀ b : Bytes, b.length = kind.length → encodeScaled (decodeScaled b kind) kind = .ok b := by
  refine ⟨?_, fun b hb => encodeScaled_decodeScaled hfactor hb⟩
  intro x hmin hmax
  obtain ⟨b, hb⟩ := encodeScaled_ok hfactor hmin hmax
  have hlen : b.length = kind.length := length_intToBytes hb
  exact ⟨b, hb, hlen, takesIn hid hfixed (hlen ▸ hwidth),
    abs_decodeScaled_sub_le hlength hfactor hb⟩

/-- A temperature: two bytes, signed, in hundredths. -/
theorem number_survives_sample :
    let kind : ObjectKind := ⟨2, true, 1 / 100⟩
    let w : Writable := ⟨⟨0x02, some 2, false, .number 100 true⟩, 1, 0, true⟩
    (∀ x, kind.minimum ≤ x → x ≤ kind.maximum → ∃ b, encodeScaled x kind = .ok b ∧
      b.length = kind.length ∧ TakesIn kind w ⟨1, 0x02⟩ b ∧
      |decodeScaled b kind - x| ≤ kind.factor / 2) ∧
    ∀ b : Bytes, b.length = kind.length → encodeScaled (decodeScaled b kind) kind = .ok b :=
  number_survives _ (by decide) (by norm_num) _ _ rfl rfl rfl

end BTHomeWritable.Agreement
