import BTHomeWritable.Device.Base
import BTHomeWritable.Lib.Aead
import BTHomeWritable.Lib.Hex

/-!
# Sealing and splitting on the device

The pure halves of `seal`, `sealAdvertising` and `openWrite`: the nonce, the
framing `ciphertext || counter u32 LE || MIC`, and how a write is taken apart
again.  `require("AESCCM")` is the parameter `ccm`, called with a 4-byte MIC
throughout.

The address comes as the text that `NRF.getAddress()` returns, with a word behind it
for its kind, and `macBytes_text` says that its six bytes are read out of that.  A
frame that is longer than its overhead splits where it was put together
(`splitWrite_append`).
-/

namespace BTHomeWritable.Device

/-- `parseInt(s, 16)` on text that starts with digits or with none at all. -/
def parseIntHex : List Char → ℕ → ℕ
  | [], v => v
  | c :: rest, v =>
      match Hex.value? c with
      | some d => parseIntHex rest (v * 16 + d)
      | none => v

/-- `macBytes()`, with the text of `NRF.getAddress()` as an argument. -/
def macBytes (address : List Char) : Bytes :=
  let hex := ((address.splitOn ' ').headD []).splitOn ':'
  (List.range 6).map fun i => UInt8.ofNat (parseIntHex (hex.getD i []) 0)

theorem parseIntHex_byteText (letters : Hex.Case) (b : UInt8) :
    UInt8.ofNat (parseIntHex (Hex.byteText letters b) 0) = b := by
  simp only [Hex.byteText, parseIntHex, Hex.value?_high, Hex.value?_low, Nat.zero_mul,
    Nat.zero_add]
  exact Hex.ofNat_halves b

/-- The address as the firmware prints it, with its kind after a blank. -/
theorem macBytes_text (letters : Hex.Case) (kind : List Char) {mac : Bytes}
    (hmac : mac.length = 6) : macBytes (Hex.joined letters ':' mac ++ ' ' :: kind) = mac := by
  have hblank : ' ' ∉ Hex.joined letters ':' mac := by
    intro hmem
    rcases Hex.mem_joined hmem with hsep | hdigit
    · exact absurd hsep (by decide)
    · exact absurd hdigit (by decide)
  have hne : mac ≠ [] := by
    rintro rfl
    simp at hmac
  unfold macBytes
  rw [List.splitOn_append_cons_self_of_not_mem hblank]
  simp only [List.headD_cons, Hex.splitOn_joined (show Hex.value? ':' = none by decide) hne]
  apply List.ext_getElem
  · simp [hmac]
  · intro i hi hi'
    simp [List.getD, hi', parseIntHex_byteText]

variable (ccm : Aead)

/-- `nonceFor(info, counter)`, with `st.mac` as an argument. -/
def nonceFor (mac : Bytes) (info : UInt8) (counter : ℕ) : Bytes :=
  mac ++ [0xD2, 0xFC, info] ++ counterBytes counter

/-- What `seal` returns once it has drawn `counter`. -/
def sealedWith (key mac pt : Bytes) (info : UInt8) (counter : ℕ) : Bytes :=
  let r := ccm.encrypt key (nonceFor mac info counter) pt
  r.1 ++ counterBytes counter ++ r.2.take MIC_LEN

/-- `[DEV_INFO_ENC].concat(seal(sd.slice(1), DEV_INFO_ENC))` for the drawn counter. -/
def sealedAdvertising (key mac sd : Bytes) (counter : ℕ) : Bytes :=
  DEV_INFO_ENC :: sealedWith ccm key mac (sd.drop 1) DEV_INFO_ENC counter

/-- The parts `openWrite` slices a write into. -/
structure WriteParts where
  counter : ℕ
  ct : Bytes
  mic : Bytes
  deriving DecidableEq

def splitWrite (pl : Bytes) : WriteParts :=
  let n := pl.length - ENC_OVERHEAD
  { counter := readUint pl n (n + 4)
    ct := pl.take n
    mic := (pl.drop (n + 4)).take MIC_LEN }

theorem splitWrite_counter_lt (pl : Bytes) : (splitWrite pl).counter < 4294967296 :=
  readUint_four_lt pl _

theorem splitWrite_append {ct mic : Bytes} {counter : ℕ} (hcounter : counter < 4294967296)
    (hmic : mic.length = 4) :
    splitWrite (ct ++ counterBytes counter ++ mic) = ⟨counter, ct, mic⟩ := by
  have hn : (ct ++ counterBytes counter ++ mic).length - ENC_OVERHEAD = ct.length := by
    simp [ENC_OVERHEAD, MIC_LEN, hmic]
  have hhead : (ct ++ counterBytes counter ++ mic).take (ct.length + 4) =
      ct ++ counterBytes counter := List.take_left' (by simp)
  have htail : (ct ++ counterBytes counter ++ mic).drop (ct.length + 4) = mic :=
    List.drop_left' (by simp)
  have hcounterBytes : readUint (ct ++ counterBytes counter ++ mic) ct.length (ct.length + 4) =
      counter := by
    rw [readUint_eq_ofLE, hhead, List.drop_left, counterBytes_eq_toLE,
      LittleEndian.ofLE_toLE hcounter]
  have hct : (ct ++ counterBytes counter ++ mic).take ct.length = ct := by
    rw [List.append_assoc, List.take_left]
  unfold splitWrite
  simp only [hn, hcounterBytes, hct, htail, MIC_LEN, List.take_of_length_le hmic.le]

end BTHomeWritable.Device
