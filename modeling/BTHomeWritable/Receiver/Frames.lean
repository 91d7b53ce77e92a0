import BTHomeWritable.Lib.Aead
import BTHomeWritable.Lib.Hex
import BTHomeWritable.Receiver.Objects

/-!
# Sealed frames on the receiver

The encryption half of `protocol.py`.  Python's integers are `ℤ` where they may
leave 32 bits and `ℕ` where they were read from bytes; a call that can raise
answers `Except PyError`.  `cryptography`'s AESCCM with `tag_length=4` is the
parameter `aead`, with the tag joined to the ciphertext as that class joins it.

`sealUnder` and `openUnder` are the two directions under an information byte, and
`sealWrite`, `openRead`, `openCounterReport` and `decryptAdvertising` the four uses of
them.  An advertisement carries its information byte and may carry the address, so
that its nonce is made of what it says of itself (`nonceAddress`).

The lemmas at the end are about well-formed input: an address as text is its six
bytes, and a frame splits where it was joined.
-/

namespace BTHomeWritable.Receiver

def MIC_LENGTH : ℕ := 4
def COUNTER_LENGTH : ℕ := 4
def SEAL_OVERHEAD : ℕ := COUNTER_LENGTH + MIC_LENGTH
def CHALLENGE_LENGTH : ℕ := 8
def DEVICE_INFO_ENCRYPTED : UInt8 := (1 : UInt8) <<< 0
def DEVICE_INFO_MAC_INCLUDED : UInt8 := (1 : UInt8) <<< 1
def DEVICE_INFO_BYTE_WRITE : UInt8 := 0xFF
def DEVICE_INFO_BYTE_READ : UInt8 := 0xFE

/-! ## Addresses and nonces -/

/-- ASCII white space, as `bytes.fromhex` skips it. -/
def isSpace (c : Char) : Bool := c = ' ' || (9 ≤ c.toNat && c.toNat ≤ 13)

/-- `bytes.fromhex`: pairs of digits, with white space allowed before each. -/
def fromhex : List Char → Except PyError Bytes
  | [] => .ok []
  | [c] => if isSpace c then .ok [] else .error .valueError
  | c :: d :: rest =>
      if isSpace c then fromhex (d :: rest)
      else
        match Hex.value? c, Hex.value? d with
        | some hi, some lo => (fromhex rest).map (UInt8.ofNat (hi * 16 + lo) :: ·)
        | _, _ => .error .valueError

def macBytes (address : List Char) : Except PyError Bytes :=
  fromhex ((address.filter (· ≠ ':')).filter (· ≠ '-'))

/-- `counter.to_bytes(COUNTER_LENGTH, "little")`. -/
def toBytes (counter : ℤ) : Except PyError Bytes :=
  if 0 ≤ counter ∧ counter < 256 ^ COUNTER_LENGTH then
    .ok (LittleEndian.toLE COUNTER_LENGTH counter.toNat)
  else .error .overflowError

def nonce (address : List Char) (deviceInfo : UInt8) (counter : ℤ) : Except PyError Bytes := do
  let mac ← macBytes address
  let tail ← toBytes counter
  pure (mac ++ [0xD2, 0xFC, deviceInfo] ++ tail)

/-! ## The device-information byte -/

def isEncrypted : Bytes → Bool
  | [] => false
  | info :: _ => info &&& DEVICE_INFO_ENCRYPTED ≠ 0

def macIncluded : Bytes → Bool
  | [] => false
  | info :: _ => info &&& DEVICE_INFO_MAC_INCLUDED ≠ 0

def objectsAt (payload : Bytes) : ℕ := if macIncluded payload then 7 else 1

/-- The MAC in the packet travels least-significant byte first. -/
def nonceAddress (payload : Bytes) (address : List Char) : List Char :=
  if !macIncluded payload || payload.length < 7 then address
  else Hex.joined .upper ':' ((payload.take 7).drop 1).reverse

/-! ## Framing -/

def splitSealed (payload : Bytes) : Except PyError (Bytes × ℕ × Bytes) :=
  if payload.length ≤ SEAL_OVERHEAD then
    .error (.protocolError
      s!"{payload.length} bytes is shorter than the framing it must contain")
  else
    .ok (payload.take (payload.length - SEAL_OVERHEAD),
      LittleEndian.ofLE ((payload.take (payload.length - MIC_LENGTH)).drop
        (payload.length - SEAL_OVERHEAD)),
      payload.drop (payload.length - MIC_LENGTH))

def advertisingCounter (payload : Bytes) : Option ℕ :=
  if !isEncrypted payload then none
  else
    match splitSealed (payload.drop (objectsAt payload)) with
    | .error _ => none
    | .ok (_, counter, _) => some counter

variable (aead : Aead)

/-- `AESCCM(key, tag_length=4).encrypt(nonce, data, None)`. -/
def aesccmEncrypt (key nonce data : Bytes) : Bytes :=
  (aead.encrypt key nonce data).1 ++ (aead.encrypt key nonce data).2

/-- `AESCCM(key, tag_length=4).decrypt(nonce, data, None)`; none is `InvalidTag`. -/
def aesccmDecrypt (key nonce data : Bytes) : Option Bytes :=
  aead.decrypt key nonce (data.take (data.length - MIC_LENGTH))
    (data.drop (data.length - MIC_LENGTH))

/-- `_open`. -/
def openUnder (payload bindkey : Bytes) (address : List Char) (deviceInfo : UInt8) :
    Except PyError (Option Bytes) :=
  match splitSealed payload with
  | .error _ => .ok none
  | .ok (ciphertext, counter, mic) => do
      let n ← nonce address deviceInfo counter
      pure (aesccmDecrypt aead bindkey n (ciphertext ++ mic))

def decryptAdvertising (payload bindkey : Bytes) (address : List Char) :
    Except PyError (Option Bytes) :=
  if !isEncrypted payload then
    .error (.protocolError "this payload does not announce itself as encrypted")
  else
    openUnder aead (payload.drop (objectsAt payload)) bindkey (nonceAddress payload address)
      (payload.headD 0)

/-- `seal`. -/
def sealUnder (plaintext bindkey : Bytes) (address : List Char) (deviceInfo : UInt8)
    (counter : ℤ) : Except PyError Bytes := do
  let n ← nonce address deviceInfo counter
  let sealed := aesccmEncrypt aead bindkey n plaintext
  let tail ← toBytes counter
  pure (sealed.take (sealed.length - MIC_LENGTH) ++ tail ++
    sealed.drop (sealed.length - MIC_LENGTH))

def sealWrite (plaintext bindkey : Bytes) (address : List Char) (counter : ℤ) :
    Except PyError Bytes :=
  sealUnder aead plaintext bindkey address DEVICE_INFO_BYTE_WRITE counter

def openRead (payload bindkey : Bytes) (address : List Char) : Except PyError (Option Bytes) :=
  openUnder aead payload bindkey address DEVICE_INFO_BYTE_READ

def openCounterReport (payload bindkey : Bytes) (address : List Char) (challenge : Bytes) :
    Except PyError (Option ℕ) := do
  match ← openRead aead payload bindkey address with
  | none => pure none
  | some plaintext =>
      if plaintext.length ≠ challenge.length + COUNTER_LENGTH then pure none
      else if plaintext.take challenge.length ≠ challenge then pure none
      else pure (some (LittleEndian.ofLE (plaintext.drop challenge.length)))

/-! ## What the functions do on well-formed input -/

theorem fromhex_digits (letters : Hex.Case) (bs : Bytes) :
    fromhex (bs.flatMap (Hex.byteText letters)) = .ok bs := by
  have hsolid : ∀ n < 16, isSpace (Hex.digit letters n) = false := by
    cases letters <;> decide
  induction bs with
  | nil => rfl
  | cons b rest ih =>
      have hb : b.toNat < 256 := b.toNat_lt
      have hhigh := hsolid (b.toNat / 16) (by omega)
      simp only [List.flatMap_cons, Hex.byteText, List.cons_append, List.nil_append, fromhex,
        hhigh, Hex.value?_high, Hex.value?_low]
      change (Except.map _ (fromhex (rest.flatMap (Hex.byteText letters)))) = _
      rw [ih, Hex.ofNat_halves]
      rfl

theorem macBytes_text (letters : Hex.Case) {sep : Char} (hsep : sep = ':' ∨ sep = '-')
    (mac : Bytes) : macBytes (Hex.joined letters sep mac) = .ok mac := by
  unfold macBytes
  rw [List.filter_filter, Hex.filter_joined, fromhex_digits]
  · intro c hc
    have hcolon : c ≠ ':' := by
      rintro rfl
      exact absurd hc (by decide)
    have hdash : c ≠ '-' := by
      rintro rfl
      exact absurd hc (by decide)
    simp [hcolon, hdash]
  · rcases hsep with rfl | rfl <;> decide

theorem toBytes_natCast {counter : ℕ} (hcounter : counter < 4294967296) :
    toBytes counter = .ok (LittleEndian.toLE 4 counter) := by
  have hrange : (0 : ℤ) ≤ counter ∧ (counter : ℤ) < 256 ^ COUNTER_LENGTH := by
    unfold COUNTER_LENGTH
    omega
  unfold toBytes
  rw [if_pos hrange, Int.toNat_natCast]
  rfl

theorem splitSealed_append {ct mic : Bytes} {counter : ℕ} (hct : ct ≠ [])
    (hcounter : counter < 4294967296) (hmic : mic.length = 4) :
    splitSealed (ct ++ LittleEndian.toLE 4 counter ++ mic) = .ok (ct, counter, mic) := by
  have hpos : 0 < ct.length := List.length_pos_iff.mpr hct
  have hlen : (ct ++ LittleEndian.toLE 4 counter ++ mic).length = ct.length + 8 := by
    simp [hmic]
  have hbody : (ct ++ LittleEndian.toLE 4 counter ++ mic).take ct.length = ct := by
    rw [List.append_assoc, List.take_left]
  have hhead : (ct ++ LittleEndian.toLE 4 counter ++ mic).take (ct.length + 4) =
      ct ++ LittleEndian.toLE 4 counter := List.take_left' (by simp)
  have htail : (ct ++ LittleEndian.toLE 4 counter ++ mic).drop (ct.length + 4) = mic :=
    List.drop_left' (by simp)
  have hlong : ¬ ct.length + 8 ≤ SEAL_OVERHEAD := by
    unfold SEAL_OVERHEAD COUNTER_LENGTH MIC_LENGTH
    omega
  unfold splitSealed
  rw [hlen, if_neg hlong]
  show Except.ok (_, LittleEndian.ofLE ((List.take (ct.length + 4) _).drop ct.length),
    List.drop (ct.length + 4) _) = _
  rw [hhead, htail, List.drop_left, LittleEndian.ofLE_toLE hcounter]
  exact congrArg (fun body => Except.ok (body, counter, mic)) hbody

end BTHomeWritable.Receiver
