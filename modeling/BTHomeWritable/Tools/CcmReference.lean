import BTHomeWritable.Lib.Buffers
import BTHomeWritable.Lib.Ccm

/-!
# The reference AES-CCM

`tools/ccm_reference.py`.  `cipher` is `_aes_encrypt_block`.  With the nonce of
thirteen bytes it insists on, it is CCM in the layout of RFC 3610 for messages
whose length fits two bytes; longer ones raise.

The functions are loops over offsets with exceptions in them.  Padding, and cutting
the padded message into blocks, is `take_drop_pad`; with it `cbcMac_eq` and
`ctrKeystream_eq` replace the loops by the chain and the key stream of `Lib.Ccm`, and
`encrypt_eq` and `decrypt_eq` the two functions.  `encrypt_overflow` and
`decrypt_overflow` are the messages that are too long.
-/

namespace BTHomeWritable.Tools.CcmReference

open BlockCipher Buffers

def NONCE_LENGTH : ℕ := 13
def MIC_LENGTH : ℕ := 4
/-- `_L`. -/
def L : ℕ := 15 - NONCE_LENGTH
def BLOCK : ℕ := 16

/-- The exceptions. -/
inductive Error where
  | valueError (message : String)
  | overflowError (message : String)
  deriving DecidableEq

variable (cipher : BlockCipher)

/-- `_xor`; `zip` is strict. -/
def xor (a b : Bytes) : Except Error Bytes :=
  if a.length = b.length then .ok (BlockCipher.xor a b)
  else if b.length < a.length then
    .error (.valueError "zip() argument 2 is shorter than argument 1")
  else .error (.valueError "zip() argument 2 is longer than argument 1")

/-- `n.to_bytes(length, "big")`. -/
def toBytesBig (n length : ℕ) : Except Error Bytes :=
  if n < 256 ^ length then .ok (Ccm.toBE length n)
  else .error (.overflowError "int too big to convert")

/-- `_pad`. -/
def pad (data : Bytes) : Bytes :=
  let remainder := data.length % BLOCK
  if remainder = 0 then data else data ++ List.replicate (BLOCK - remainder) 0

/-- `range(0, stop, BLOCK)`. -/
def offsets (stop : ℕ) : List ℕ := (List.range ((stop + BLOCK - 1) / BLOCK)).map (· * BLOCK)

/-- A turn of the loop of `_cbc_mac`. -/
def cbcMacTurn (key data state : Bytes) (offset : ℕ) : Except Error Bytes := do
  let block := (data.drop offset).take BLOCK
  return cipher.encrypt key (← xor state block)

/-- `_cbc_mac`. -/
def cbcMac (key nonce message : Bytes) : Except Error Bytes := do
  let flags := 8 * ((MIC_LENGTH - 2) / 2) + (L - 1)
  let b0 := UInt8.ofNat flags :: nonce ++ (← toBytesBig message.length L)
  let data := b0 ++ pad message
  let state ← (offsets data.length).foldlM (cbcMacTurn cipher key data) (List.replicate BLOCK 0)
  return state.take MIC_LENGTH

/-- `_counter_block`. -/
def counterBlock (nonce : Bytes) (index : ℕ) : Except Error Bytes := do
  return UInt8.ofNat (L - 1) :: nonce ++ (← toBytesBig index L)

/-- The loop of `_ctr_keystream`; a turn adds a block, so `length` turns are more than enough. -/
def keystreamLoop (key nonce : Bytes) (length : ℕ) :
    ℕ → Bytes → ℕ → Except Error Bytes
  | 0, stream, _ => .ok stream
  | turns + 1, stream, index =>
      if stream.length < length then do
        let block ← counterBlock nonce index
        keystreamLoop key nonce length turns (stream ++ cipher.encrypt key block) (index + 1)
      else .ok stream

/-- `_ctr_keystream`. -/
def ctrKeystream (key nonce : Bytes) (length : ℕ) : Except Error Bytes := do
  let stream ← keystreamLoop cipher key nonce length length [] 1
  return stream.take length

/-- The check both functions start with. -/
def checkNonce (nonce : Bytes) : Except Error Unit :=
  if nonce.length ≠ NONCE_LENGTH then
    .error (.valueError s!"nonce must be {NONCE_LENGTH} bytes, got {nonce.length}")
  else .ok ()

/-- `encrypt`. -/
def encrypt (key nonce plaintext : Bytes) : Except Error (Bytes × Bytes) := do
  checkNonce nonce
  let tag ← cbcMac cipher key nonce plaintext
  let s0 := cipher.encrypt key (← counterBlock nonce 0)
  let mic ← xor tag (s0.take MIC_LENGTH)
  let ciphertext ← xor plaintext (← ctrKeystream cipher key nonce plaintext.length)
  return (ciphertext, mic)

/-- `decrypt`. -/
def decrypt (key nonce ciphertext mic : Bytes) : Except Error (Option Bytes) := do
  checkNonce nonce
  let plaintext ← xor ciphertext (← ctrKeystream cipher key nonce ciphertext.length)
  let (_, expectedMic) ← encrypt cipher key nonce plaintext
  let difference := (expectedMic.zip mic).foldl
    (fun (difference : UInt8) (ab : UInt8 × UInt8) => difference ||| (ab.1 ^^^ ab.2)) 0
  return if difference ≠ 0 ∨ mic.length ≠ MIC_LENGTH then none else some plaintext

/-! ## The padded message, block by block -/

variable {cipher} {key nonce message : Bytes}

theorem xor_ok {a b : Bytes} (h : a.length = b.length) : xor a b = .ok (BlockCipher.xor a b) :=
  if_pos h

theorem length_of_xor {a b c : Bytes} (h : xor a b = .ok c) : c.length = a.length := by
  by_cases hlen : a.length = b.length
  · rw [xor_ok hlen] at h
    obtain rfl : BlockCipher.xor a b = c := Except.ok.inj h
    rw [length_xor, hlen, Nat.min_self]
  · rw [xor, if_neg hlen] at h
    split at h <;> exact absurd h (by simp)

theorem pad_eq (data : Bytes) : pad data = BlockCipher.pad data := by
  rw [pad, BlockCipher.pad, BLOCK]
  by_cases hzero : data.length % 16 = 0
  · rw [if_pos hzero, hzero]
    exact (List.append_nil data).symm
  · have hfill : (16 - data.length % 16) % 16 = 16 - data.length % 16 := by omega
    rw [if_neg hzero, hfill]

theorem take_drop_pad {i : ℕ} (hi : i < Ccm.blockCount message) :
    ((pad message).drop (16 * i)).take 16 = Ccm.paddedBlock message i := by
  have hin : 16 * i < message.length := by
    rw [Ccm.blockCount] at hi
    omega
  rw [pad_eq, BlockCipher.pad, List.drop_append_of_le_length (Nat.le_of_lt hin), List.take_append,
    List.take_replicate, Ccm.paddedBlock, List.length_take, List.length_drop]
  congr 2
  omega

/-- Block `i` of `b0 + _pad(message)` is `B_i`. -/
theorem take_drop_data (hnonce : nonce.length = NONCE_LENGTH) {i : ℕ}
    (hi : i ≤ Ccm.blockCount message) :
    ((((Ccm.rfc3610 4 2).macBlock nonce message 0) ++ pad message).drop (16 * i)).take 16 =
      (Ccm.rfc3610 4 2).macBlock nonce message i := by
  have hfirst : ((Ccm.rfc3610 4 2).macBlock nonce message 0).length = 16 := by
    simp only [Ccm.rfc3610, List.length_append, List.length_cons, Ccm.length_toBE, hnonce]
    rfl
  cases i with
  | zero => rw [Nat.mul_zero, List.drop_zero, ← hfirst, List.take_left]
  | succ i =>
      have hoff : 16 * (i + 1) = ((Ccm.rfc3610 4 2).macBlock nonce message 0).length + 16 * i := by
        rw [hfirst]
        omega
      rw [hoff, List.drop_length_add_append, take_drop_pad hi]
      rfl

theorem length_rfc3610_macBlock (hnonce : nonce.length = NONCE_LENGTH) (i : ℕ) :
    ((Ccm.rfc3610 4 2).macBlock nonce message i).length = 16 := by
  cases i with
  | zero =>
      simp only [Ccm.rfc3610, List.length_append, List.length_cons, Ccm.length_toBE, hnonce]
      rfl
  | succ i => exact Ccm.length_paddedBlock message i

theorem length_rfc3610_counterBlock (hnonce : nonce.length = NONCE_LENGTH) (i : ℕ) :
    ((Ccm.rfc3610 4 2).counterBlock nonce i).length = 16 := by
  simp only [Ccm.rfc3610, List.length_append, List.length_cons, Ccm.length_toBE, hnonce]
  rfl

/-! ## The CBC-MAC -/

/-- The loop of `_cbc_mac` never meets two strings of different length. -/
theorem foldlM_cbcMacTurn {data : Bytes} {f : ℕ → Bytes} {is : List ℕ}
    (hblock : ∀ i ∈ is, (data.drop (i * BLOCK)).take BLOCK = f i) (hf : ∀ i, (f i).length = 16)
    {state : Bytes} (hstate : state.length = 16) :
    (is.map (· * BLOCK)).foldlM (cbcMacTurn cipher key data) state =
      .ok (cipher.chain key state (is.map f)) := by
  induction is generalizing state with
  | nil => rfl
  | cons i is ih =>
      have hi : (data.drop (i * BLOCK)).take BLOCK = f i := hblock i List.mem_cons_self
      have hmix : (BlockCipher.xor state (f i)).length = 16 := by
        rw [length_xor, hstate, hf, Nat.min_self]
      have hturn : cbcMacTurn cipher key data state (i * BLOCK) =
          .ok (cipher.encrypt key (BlockCipher.xor state (f i))) := by
        rw [cbcMacTurn, hi, xor_ok (by rw [hstate, hf])]
        rfl
      rw [List.map_cons, List.foldlM_cons, hturn]
      exact ih (fun j hj => hblock j (List.mem_cons_of_mem i hj)) (cipher.length_encrypt key hmix)

theorem toBytesBig_ok {n length : ℕ} (h : n < 256 ^ length) :
    toBytesBig n length = .ok (Ccm.toBE length n) := if_pos h

theorem cbcMac_eq (hnonce : nonce.length = NONCE_LENGTH) (hlen : message.length < 65536) :
    cbcMac cipher key nonce message =
      .ok ((Ccm.mac cipher (Ccm.rfc3610 4 2) key nonce message).take MIC_LENGTH) := by
  obtain ⟨data, hdata⟩ : ∃ data, data = (Ccm.rfc3610 4 2).macBlock nonce message 0 ++ pad message :=
    ⟨_, rfl⟩
  have hcount : (data.length + BLOCK - 1) / BLOCK = Ccm.blockCount message + 1 := by
    rw [hdata, List.length_append, length_rfc3610_macBlock hnonce, pad_eq, length_pad,
      Ccm.blockCount, BLOCK]
    omega
  have hblocks : ∀ i ∈ List.range (Ccm.blockCount message + 1),
      (data.drop (i * BLOCK)).take BLOCK = (Ccm.rfc3610 4 2).macBlock nonce message i := by
    intro i hi
    rw [hdata, Nat.mul_comm]
    exact take_drop_data hnonce (Nat.lt_succ_iff.mp (List.mem_range.mp hi))
  have hloop : (offsets data.length).foldlM (cbcMacTurn cipher key data) (List.replicate BLOCK 0) =
      .ok (Ccm.mac cipher (Ccm.rfc3610 4 2) key nonce message) := by
    rw [offsets, hcount]
    exact foldlM_cbcMacTurn hblocks (length_rfc3610_macBlock hnonce) rfl
  rw [cbcMac, toBytesBig_ok hlen]
  calc _ = (do
        let state ← (offsets data.length).foldlM (cbcMacTurn cipher key data)
          (List.replicate BLOCK 0)
        return state.take MIC_LENGTH) := by rw [hdata]; rfl
    _ = _ := by rw [hloop]; rfl

/-- A message whose length does not fit raises. -/
theorem cbcMac_overflow (hlen : 65536 ≤ message.length) :
    cbcMac cipher key nonce message = .error (.overflowError "int too big to convert") := by
  have hbig : toBytesBig message.length L = .error (.overflowError "int too big to convert") :=
    if_neg (Nat.not_lt.mpr hlen)
  rw [cbcMac, hbig]
  rfl

/-! ## The key stream -/

theorem counterBlock_ok {index : ℕ} (h : index < 65536) :
    counterBlock nonce index = .ok ((Ccm.rfc3610 4 2).counterBlock nonce index) := by
  rw [counterBlock, toBytesBig_ok h]
  rfl

/-- `S_1, .., S_k`. -/
def streamBlocks (cipher : BlockCipher) (key nonce : Bytes) (k : ℕ) : Bytes :=
  (List.range k).flatMap fun i => cipher.encrypt key ((Ccm.rfc3610 4 2).counterBlock nonce (i + 1))

theorem length_streamBlock (hnonce : nonce.length = NONCE_LENGTH) (i : ℕ) :
    (cipher.encrypt key ((Ccm.rfc3610 4 2).counterBlock nonce (i + 1))).length = 16 :=
  cipher.length_encrypt key (length_rfc3610_counterBlock hnonce (i + 1))

theorem length_streamBlocks (hnonce : nonce.length = NONCE_LENGTH) (k : ℕ) :
    (streamBlocks cipher key nonce k).length = k * 16 :=
  length_flatMap_range (length_streamBlock hnonce) k

/-- From `k` blocks on, with turns to spare. -/
theorem keystreamLoop_eq (hnonce : nonce.length = NONCE_LENGTH) {length k turns : ℕ}
    (hlen : length < 65536) (hk : k ≤ (length + 15) / 16)
    (hturns : (length + 15) / 16 ≤ k + turns) :
    keystreamLoop cipher key nonce length turns (streamBlocks cipher key nonce k) (k + 1) =
      .ok (streamBlocks cipher key nonce ((length + 15) / 16)) := by
  induction turns generalizing k with
  | zero =>
      have heq : k = (length + 15) / 16 := by omega
      rw [keystreamLoop, ← heq]
  | succ turns ih =>
      rw [keystreamLoop, length_streamBlocks hnonce]
      by_cases hmore : k * 16 < length
      · have hnext : streamBlocks cipher key nonce k ++
            cipher.encrypt key ((Ccm.rfc3610 4 2).counterBlock nonce (k + 1)) =
              streamBlocks cipher key nonce (k + 1) := by
          rw [streamBlocks, streamBlocks, List.range_succ, List.flatMap_append,
            List.flatMap_singleton]
        rw [if_pos hmore, counterBlock_ok (by omega)]
        simp only [bind, Except.bind]
        rw [hnext]
        exact ih (by omega) (by omega)
      · have heq : k = (length + 15) / 16 := by omega
        rw [if_neg hmore, ← heq]

theorem ctrKeystream_eq (hnonce : nonce.length = NONCE_LENGTH) {length : ℕ}
    (hlen : length < 65536) :
    ctrKeystream cipher key nonce length =
      .ok ((streamBlocks cipher key nonce ((length + 15) / 16)).take length) := by
  have hloop : keystreamLoop cipher key nonce length length [] 1 = _ :=
    keystreamLoop_eq (k := 0) hnonce hlen (Nat.zero_le _) (by omega)
  rw [ctrKeystream, hloop]
  rfl

/-- The key stream put on a message. -/
theorem xor_keystream (hnonce : nonce.length = NONCE_LENGTH) (hlen : message.length < 65536) :
    ∃ stream, ctrKeystream cipher key nonce message.length = .ok stream ∧
      xor message stream = .ok (Ccm.crypt cipher (Ccm.rfc3610 4 2) key nonce message) := by
  have htake : ((streamBlocks cipher key nonce ((message.length + 15) / 16)).take
      message.length).length = message.length := by
    rw [List.length_take, length_streamBlocks hnonce]
    omega
  have hbytes : BlockCipher.xor message ((streamBlocks cipher key nonce
      ((message.length + 15) / 16)).take message.length) =
        Ccm.crypt cipher (Ccm.rfc3610 4 2) key nonce message := by
    apply List.ext_getElem (by rw [length_xor, htake, Ccm.length_crypt, Nat.min_self])
    intro j h₁ h₂
    have hj : j < message.length := by rwa [Ccm.length_crypt] at h₂
    have hwhere : j / 16 * 16 + j % 16 = j := by omega
    have hstream : (streamBlocks cipher key nonce ((message.length + 15) / 16)).getD j 0 =
        Ccm.streamByte cipher (Ccm.rfc3610 4 2) key nonce j := by
      have hget : (streamBlocks cipher key nonce ((message.length + 15) / 16)).getD
          (j / 16 * 16 + j % 16) 0 = Ccm.streamByte cipher (Ccm.rfc3610 4 2) key nonce j :=
        getD_flatMap (length_streamBlock hnonce) (by omega) (by omega) 0
      rwa [hwhere] at hget
    have hin : j < (streamBlocks cipher key nonce ((message.length + 15) / 16)).length := by
      rw [length_streamBlocks hnonce]
      omega
    rw [Ccm.getElem_crypt, ← hstream, List.getD_eq_getElem _ _ hj, List.getD_eq_getElem _ _ hin]
    simp only [BlockCipher.xor, List.getElem_zipWith, List.getElem_take]
  exact ⟨_, ctrKeystream_eq hnonce hlen, by rw [xor_ok htake.symm, hbytes]⟩

/-! ## Sealing and opening -/

theorem checkNonce_ok (hnonce : nonce.length = NONCE_LENGTH) : checkNonce nonce = .ok () :=
  if_neg (not_not_intro hnonce)

/-- The masked MAC. -/
theorem xor_tag (hnonce : nonce.length = NONCE_LENGTH) :
    xor ((Ccm.mac cipher (Ccm.rfc3610 4 2) key nonce message).take MIC_LENGTH)
        ((cipher.encrypt key ((Ccm.rfc3610 4 2).counterBlock nonce 0)).take MIC_LENGTH) =
      .ok (Ccm.tag cipher (Ccm.rfc3610 4 2) key nonce 4 message) := by
  have hmac : (Ccm.mac cipher (Ccm.rfc3610 4 2) key nonce message).length = 16 := by
    apply length_chain (by rw [List.length_replicate])
    intro b hb
    obtain ⟨i, _, rfl⟩ := List.mem_map.mp hb
    exact length_rfc3610_macBlock hnonce i
  have hmask : (cipher.encrypt key ((Ccm.rfc3610 4 2).counterBlock nonce 0)).length = 16 :=
    cipher.length_encrypt key (length_rfc3610_counterBlock hnonce 0)
  have hmac4 :
      ((Ccm.mac cipher (Ccm.rfc3610 4 2) key nonce message).take MIC_LENGTH).length = 4 := by
    rw [List.length_take, hmac]
    rfl
  have hmask4 : ((cipher.encrypt key
      ((Ccm.rfc3610 4 2).counterBlock nonce 0)).take MIC_LENGTH).length = 4 := by
    rw [List.length_take, hmask]
    rfl
  rw [xor_ok (by rw [hmac4, hmask4])]
  congr 1
  apply List.ext_getElem (by rw [length_xor, hmac4, hmask4, Ccm.length_tag, Nat.min_self])
  intro i _ h₂
  have hi : i < 4 := by rwa [Ccm.length_tag] at h₂
  simp only [BlockCipher.xor, Ccm.tag, List.getElem_zipWith, List.getElem_take, List.getElem_map,
    List.getElem_range]
  rw [List.getD_eq_getElem _ _ (by omega), List.getD_eq_getElem _ _ (by omega)]

/-- `encrypt` is CCM in the layout of RFC 3610. -/
theorem encrypt_eq (hnonce : nonce.length = NONCE_LENGTH) (hlen : message.length < 65536) :
    encrypt cipher key nonce message =
      .ok ((Ccm.aead cipher (Ccm.rfc3610 4 2) 4).encrypt key nonce message) := by
  obtain ⟨stream, hstream, hxor⟩ :
    ∃ stream, ctrKeystream cipher key nonce message.length = .ok stream ∧ _ :=
      xor_keystream hnonce hlen
  rw [encrypt, checkNonce_ok hnonce, cbcMac_eq hnonce hlen, counterBlock_ok (by decide), hstream]
  simp only [bind, Except.bind, pure, Except.pure]
  rw [xor_tag hnonce]
  simp only
  rw [hxor]
  rfl

/-- No byte of two strings differs. -/
theorem difference_eq_zero_iff {a b : Bytes} (h : a.length = b.length) (start : UInt8) :
    (a.zip b).foldl (fun (difference : UInt8) (ab : UInt8 × UInt8) =>
      difference ||| (ab.1 ^^^ ab.2)) start = 0 ↔ start = 0 ∧ a = b := by
  induction a generalizing b start with
  | nil =>
      obtain rfl : b = [] := List.length_eq_zero_iff.mp h.symm
      simp
  | cons x a ih =>
      cases b with
      | nil => simp at h
      | cons y b =>
          rw [List.zip_cons_cons, List.foldl_cons, ih (by simpa using h), UInt8.or_eq_zero_iff,
            UInt8.xor_eq_zero_iff, List.cons.injEq, and_assoc]

/-- `decrypt` is CCM in the layout of RFC 3610. -/
theorem decrypt_eq (hnonce : nonce.length = NONCE_LENGTH) {ct mic : Bytes}
    (hlen : ct.length < 65536) (hmic : mic.length = MIC_LENGTH) :
    decrypt cipher key nonce ct mic =
      .ok ((Ccm.aead cipher (Ccm.rfc3610 4 2) 4).decrypt key nonce ct mic) := by
  obtain ⟨stream, hstream, hxor⟩ :
    ∃ stream, ctrKeystream cipher key nonce ct.length = .ok stream ∧ _ := xor_keystream hnonce hlen
  have hplain : (Ccm.crypt cipher (Ccm.rfc3610 4 2) key nonce ct).length < 65536 := by
    rwa [Ccm.length_crypt]
  obtain ⟨expected, hexpected⟩ : ∃ expected, expected = Ccm.tag cipher (Ccm.rfc3610 4 2) key nonce 4
    (Ccm.crypt cipher (Ccm.rfc3610 4 2) key nonce ct) := ⟨_, rfl⟩
  have hsame : expected.length = mic.length := by
    rw [hexpected, Ccm.length_tag, hmic]
    rfl
  rw [decrypt, checkNonce_ok hnonce, hstream]
  simp only [bind, Except.bind, pure, Except.pure]
  rw [hxor]
  simp only
  rw [encrypt_eq hnonce hplain]
  simp only [Ccm.aead, ← hexpected, ne_eq, difference_eq_zero_iff hsame, true_and, hmic,
    not_true_eq_false, or_false, eq_comm (a := mic)]
  congr 1
  exact ite_not _ _ _

theorem of_bind_ok {α β : Type} {x : Except Error α} {f : α → Except Error β} {b : β}
    (h : (x >>= f) = .ok b) : ∃ a, x = .ok a ∧ f a = .ok b := by
  cases x with
  | error e => exact absurd h (by simp [bind, Except.bind])
  | ok a => exact ⟨a, rfl, h⟩

/-- A message whose length does not fit is not sealed. -/
theorem encrypt_overflow (hlen : 65536 ≤ message.length) (out : Bytes × Bytes) :
    encrypt cipher key nonce message ≠ .ok out := by
  intro hout
  obtain ⟨_, _, hrest⟩ := of_bind_ok hout
  rw [cbcMac_overflow hlen] at hrest
  obtain ⟨_, htag, _⟩ := of_bind_ok hrest
  exact absurd htag (by simp)

/-- And none is opened. -/
theorem decrypt_overflow {ct mic : Bytes} (hlen : 65536 ≤ ct.length) (opened : Option Bytes) :
    decrypt cipher key nonce ct mic ≠ .ok opened := by
  intro hopen
  obtain ⟨_, _, hrest⟩ := of_bind_ok hopen
  obtain ⟨stream, _, hrest⟩ := of_bind_ok hrest
  obtain ⟨plaintext, hplain, hrest⟩ := of_bind_ok hrest
  obtain ⟨out, hout, _⟩ := of_bind_ok hrest
  have hlong : 65536 ≤ plaintext.length := by rwa [length_of_xor hplain]
  exact encrypt_overflow hlong out hout

end BTHomeWritable.Tools.CcmReference
