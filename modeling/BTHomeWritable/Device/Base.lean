import BTHomeWritable.Lib.Circular
import BTHomeWritable.Lib.LittleEndian

/-!
# The device module's constants, errors and numbers

`BTHomeWritable.js`, the part everything else rests on.  JavaScript numbers are
integers here: every number the modelled functions compute is one, far below
2^53.  `x >>> 0` is `toUint32 x`.  Bytes are `UInt8`, so an object id or an
array element cannot leave 0..255.

Counters are compared on the circle of 2^32: `counterIsAhead` asks whether one is less
than half a turn ahead of another, and `reachedMark` whether it has come to a mark or
a little past it.  The lemmas at the end read the first off the *positions* that the
counters have on the line (`Lib.Circular`).
-/

namespace BTHomeWritable.Device

def DECL_ID : UInt8 := 0xFF
def CHALLENGE_LEN : ℕ := 8
def PKT_ID : UInt8 := 0x00
def REV_ID : UInt8 := 0x65
def DEV_INFO : UInt8 := 0x40
def DEV_INFO_ENC : UInt8 := 0x41
def WRITE_INFO : UInt8 := 0xFF
def READ_INFO : UInt8 := 0xFE
def MIC_LEN : ℕ := 4
def ENC_OVERHEAD : ℕ := 4 + MIC_LEN
def BUDGET : ℕ := 31 - 3 - 4
def CTR_STRIDE : ℕ := 64
def CTR_WINDOW : ℕ := 0x80000000
def ADV_STRIDE : ℕ := 1000000

/-- `FORBIDDEN`: objects that are not data (S2.1). -/
def FORBIDDEN : List UInt8 := [0x00, 0x3B, 0x65, 0xFF, 0xF0, 0xF1, 0xF2]

/-- The `code` an error of the module carries. -/
inductive ErrCode where
  | forbiddenEntry
  | tooManyEntries
  | capacityExceeded
  | truncated
  | objectidMismatch
  | trailingBytes
  | writableWithoutLength
  | unsupportedWritableType
  | writableNeedsId
  | entryWithoutAccessor
  | layoutDrift
  | challengeLength
  | counterNotIncreasing
  | micMismatch
  | entryNotDeclared
  | advertisingRejected
  | counterReportFailed
  | intervalOutOfRange
  | bindkeyLength
  | bindkeyNotHex
  | notReadable
  | fastTimeoutNegative
  /-- The code of an error made elsewhere, where it carries one. -/
  | foreign (code : String)
  deriving DecidableEq, Repr

/-- A thrown `Error`; `code` is missing on those that carry none. -/
structure JsError where
  code : Option ErrCode
  message : String
  deriving DecidableEq, Repr

def err (code : ErrCode) (message : String) : JsError := ⟨some code, message⟩

/-- `n.toString(16)`. -/
def hex (n : ℕ) : String := String.ofList (Nat.toDigits 16 n)

/-- `x >>> 0`. -/
def toUint32 (x : ℤ) : ℕ := (x % 0x100000000).toNat

theorem toUint32_lt (x : ℤ) : toUint32 x < 4294967296 := by
  unfold toUint32
  omega

theorem toUint32_natCast (n : ℕ) : toUint32 n = n % 4294967296 := by
  unfold toUint32
  omega

theorem toUint32_sub_eq_forward (a b : ℤ) : toUint32 (b - a) = Circular.forward 4294967296 a b :=
  rfl

/-- `readUint(bytes, from, to)`. -/
def readUint (bytes : Bytes) (start stop : ℕ) : ℕ :=
  ((bytes.take stop).drop start).reverse.foldl (fun v b => v * 256 + b.toNat) 0

theorem readUint_eq_ofLE (bytes : Bytes) (start stop : ℕ) :
    readUint bytes start stop = LittleEndian.ofLE ((bytes.take stop).drop start) :=
  LittleEndian.foldl_reverse_eq_ofLE _

theorem readUint_four_lt (bytes : Bytes) (n : ℕ) : readUint bytes n (n + 4) < 4294967296 := by
  rw [readUint_eq_ofLE]
  have hlen : ((bytes.take (n + 4)).drop n).length ≤ 4 := by simp; omega
  calc LittleEndian.ofLE ((bytes.take (n + 4)).drop n)
      < 256 ^ ((bytes.take (n + 4)).drop n).length := LittleEndian.ofLE_lt _
    _ ≤ 256 ^ 4 := Nat.pow_le_pow_right (by omega) hlen

/-- `(counter >>> (8 * i)) & 255` for `i` from 0 to 3. -/
def counterBytes (counter : ℕ) : Bytes :=
  (List.range 4).map fun i => UInt8.ofNat ((counter >>> (8 * i)) % 256)

theorem counterBytes_eq_toLE (counter : ℕ) : counterBytes counter = LittleEndian.toLE 4 counter :=
  LittleEndian.map_range_shift_eq_toLE 4 counter

@[simp] theorem length_counterBytes (counter : ℕ) : (counterBytes counter).length = 4 := by
  simp [counterBytes]

/-- Is `counter` ahead of `last`, in the circular sense of S5.3? -/
def counterIsAhead (counter last : ℕ) : Bool :=
  let ahead := toUint32 ((counter : ℤ) - last)
  ahead ≠ 0 && ahead ≤ CTR_WINDOW

/-- Has `counter` reached `mark`, in the circular sense of S5.3? -/
def reachedMark (counter mark stride : ℕ) : Bool :=
  toUint32 ((counter : ℤ) - mark) < stride

theorem counterIsAhead_iff (counter last : ℕ) :
    counterIsAhead counter last ↔
      0 < Circular.forward 4294967296 last counter ∧
        Circular.forward 4294967296 last counter ≤ 2147483648 := by
  simp only [counterIsAhead, Bool.and_eq_true, decide_eq_true_eq]
  rw [toUint32_sub_eq_forward, CTR_WINDOW, Nat.pos_iff_ne_zero]

/-! ## Counters and their positions -/

theorem toUint32_mod_add (p k : ℕ) :
    toUint32 (((p % 4294967296 : ℕ) : ℤ) + k) = (p + k) % 4294967296 := by
  unfold toUint32
  omega

theorem ahead_of_behind {p q : ℕ} (hpq : p < q) (hq : q ≤ p + 2147483648) :
    counterIsAhead (q % 4294967296) (p % 4294967296) := by
  rw [counterIsAhead_iff, Circular.forward_positions hpq.le (by omega)]
  omega

end BTHomeWritable.Device
