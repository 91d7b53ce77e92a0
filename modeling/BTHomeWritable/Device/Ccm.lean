import BTHomeWritable.Device.Base
import BTHomeWritable.Lib.Buffers
import BTHomeWritable.Lib.Ccm

/-!
# AES-CCM out of `AES.encrypt`

`AESCCM.js` on a firmware without CCM of its own.  `AES` is the firmware's
`AES.encrypt(data, key, options)`, `none` standing for `undefined`.  The module
builds the blocks it encrypts in a buffer of 32 bytes that all calls share; the
buffer is passed along and comes out of each call as the next one finds it.
`encrypt` and `decrypt` turn out to be CCM with a layout that does not mention
the buffer.
-/

namespace BTHomeWritable.Device.Ccm

open BlockCipher Buffers

/-- Bytes of an AES call: two blocks. -/
def CHUNK : ℕ := 32

def ZERO : Bytes := List.replicate 16 0

/-- The options of an AES call. -/
inductive AesOptions where
  | cbc (iv : Bytes)
  | ecb

/-- `AES.encrypt`. -/
abbrev AesEncrypt := Bytes → Bytes → AesOptions → Option Bytes

/-- The sealed message. -/
structure Sealed where
  data : Bytes
  mic : Bytes
  deriving DecidableEq

/-- `x >> count` on an integer: its low 32 bits, shifted by the low five bits of `count`. -/
def shr (x count : ℕ) : BitVec 32 := (BitVec.ofNat 32 x).sshiftRight (count % 32)

/-- `array[i] = x`: an element of a byte array takes the low byte. -/
def byteOf (x : BitVec 32) : UInt8 := UInt8.ofNat x.toNat

/-- `buf.fill(0, from, to)`. -/
def fillZero (buf : Bytes) (start stop : ℕ) : Bytes :=
  writeAt buf start (List.replicate (stop - start) 0)

/-- `for (i = 0; i < L; i++) buf[at + 15 - i] = (n >> (8 * i)) & 255`. -/
def putNumber (buf : Bytes) (start L n : ℕ) : Bytes :=
  (List.range L).foldl (fun buf i => buf.set (start + 15 - i) (byteOf (shr n (8 * i) &&& 255))) buf

variable (AES : AesEncrypt)

/-- `aes`. -/
def aes (data key : Bytes) (options : AesOptions) : Except JsError Bytes :=
  match AES data key options with
  | none => .error ⟨none, "AES returned nothing: no contiguous memory"⟩
  | some r => .ok r

/-- The flags of `B_0`: `((M - 2) / 2) << 3 | (L - 1)`. -/
def macFlags (M L : ℕ) : BitVec 32 :=
  BitVec.ofInt 32 (((M : ℤ) - 2).tdiv 2) <<< 3 ||| BitVec.ofInt 32 ((L : ℤ) - 1)

/-- `macBlock`: the buffer with block `index` of `B0 || plaintext` in `slot`. -/
def macBlock (buf : Bytes) (slot index : ℕ) (pt nonce : Bytes) (M L : ℕ) : Bytes :=
  let start := slot * 16
  let buf := fillZero buf start (start + 16)
  if index = 0 then
    let buf := buf.set start (byteOf (macFlags M L))
    let buf := writeAt buf (start + 1) nonce
    putNumber buf start L pt.length
  else
    let first := (index - 1) * 16
    writeAt buf start ((pt.take (min (first + 16) pt.length)).drop first)

/-- The loop of `tagOf`, with the buffer it leaves. -/
def tagLoop (key pt nonce : Bytes) (M L total : ℕ) (buf carry : Bytes) (index : ℕ) :
    Except JsError (Bytes × Bytes) :=
  if index < total then do
    let count := min 2 (total - index)
    let buf := (List.range count).foldl
      (fun buf slot => macBlock buf slot (index + slot) pt nonce M L) buf
    let out ← aes AES (buf.take (count * 16)) key (.cbc carry)
    tagLoop key pt nonce M L total buf (out.drop (out.length - 16)) (index + count)
  else .ok (carry, buf)
termination_by total - index
decreasing_by omega

/-- `tagOf`. -/
def tagOf (buf key pt nonce : Bytes) (M L : ℕ) : Except JsError (Bytes × Bytes) :=
  tagLoop AES key pt nonce M L ((pt.length + 15) / 16 + 1) buf ZERO 0

/-- A turn of the loop of `counters`: block `A_i` in `slot`. -/
def counterBlock (buf nonce : Bytes) (L slot i : ℕ) : Bytes :=
  let start := slot * 16
  let buf := fillZero buf start (start + 16)
  let buf := buf.set start (byteOf (BitVec.ofInt 32 ((L : ℤ) - 1)))
  let buf := writeAt buf (start + 1) nonce
  putNumber buf start L i

/-- The loop of `counters`. -/
def counterBlocks (buf nonce : Bytes) (L index count : ℕ) : Bytes :=
  (List.range count).foldl (fun buf slot => counterBlock buf nonce L slot (index + slot)) buf

/-- `counters`. -/
def counters (buf key nonce : Bytes) (L index count : ℕ) : Except JsError (Bytes × Bytes) := do
  let buf := counterBlocks buf nonce L index count
  let out ← aes AES (buf.take (count * 16)) key .ecb
  return (out, buf)

/-- A turn of the inner loop of `stream`, over `data` and `s0`. -/
def streamSlot (source s : Bytes) (index : ℕ) (st : Bytes × Option Bytes) (slot : ℕ) :
    Bytes × Option Bytes :=
  if index + slot = 0 then (st.1, some (s.take 16))
  else
    let start := (index + slot - 1) * 16
    let stop := min (start + 16) source.length
    ((List.range' start (stop - start)).foldl
      (fun data j => data.set j (source.getD j 0 ^^^ s.getD (slot * 16 + j - start) 0)) st.1, st.2)

/-- The outer loop of `stream`. -/
def streamLoop (source key nonce : Bytes) (L blocks : ℕ) (buf : Bytes)
    (st : Bytes × Option Bytes) (index : ℕ) :
    Except JsError ((Bytes × Option Bytes) × Bytes) :=
  if index ≤ blocks then do
    let count := min 2 (blocks + 1 - index)
    let (s, buf) ← counters AES buf key nonce L index count
    streamLoop source key nonce L blocks buf
      ((List.range count).foldl (streamSlot source s index) st) (index + count)
  else .ok (st, buf)
termination_by blocks + 1 - index
decreasing_by omega

/-- `stream`: `data` under the key stream, and `s0`, which the first turn sets. -/
def stream (buf data source key nonce : Bytes) (L : ℕ) :
    Except JsError ((Bytes × Option Bytes) × Bytes) :=
  streamLoop AES source key nonce L ((source.length + 15) / 16) buf (data, none) 0

/-- `tag[i] ^ s0[i]`; `s0` is not `null` once `stream` has returned. -/
def masked (tag : Bytes) (s0 : Option Bytes) (i : ℕ) : UInt8 :=
  tag.getD i 0 ^^^ (s0.getD []).getD i 0

/-- `encrypt`; a missing `M` is 4. -/
def encrypt (buf pt key nonce : Bytes) (M : Option ℕ) : Except JsError (Sealed × Bytes) := do
  let M := M.getD 4
  let L := 15 - nonce.length
  let (tag, buf) ← tagOf AES buf key pt nonce M L
  let ((data, s0), buf) ← stream AES buf (List.replicate pt.length 0) pt key nonce L
  return (⟨data, (List.range M).map (masked tag s0)⟩, buf)

/-- `decrypt`: the plaintext, or `none` for `null`. -/
def decrypt (buf ct key nonce mic : Bytes) : Except JsError (Option Bytes × Bytes) := do
  let M := mic.length
  let L := 15 - nonce.length
  let ((pt, s0), buf) ← stream AES buf (List.replicate ct.length 0) ct key nonce L
  let (tag, buf) ← tagOf AES buf key pt nonce M L
  let diff := (List.range M).foldl
    (fun (diff : UInt8) i => diff ||| (masked tag s0 i ^^^ mic.getD i 0)) 0
  return (if diff = 0 then some pt else none, buf)

end BTHomeWritable.Device.Ccm
