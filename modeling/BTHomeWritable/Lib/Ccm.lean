import BTHomeWritable.Lib.Aead
import BTHomeWritable.Lib.BlockCipher
import Mathlib.Data.List.GetD

/-!
# CCM, whatever its blocks look like

CCM is a CBC-MAC over the blocks `B_0, B_1, ..` of a message and a counter mode
whose key stream is made of the blocks `A_1, A_2, ..`, the tag being masked
with `A_0`.  How a nonce, a length and a number are laid out in these blocks is
a `Format`; that opening undoes sealing does not depend on it.  The layout of
RFC 3610, without associated data, is `rfc3610`.
-/

namespace Ccm

open BlockCipher

/-- The layout of the blocks. -/
@[ext] structure Format where
  /-- `B_i` of a message under a nonce. -/
  macBlock : Bytes → Bytes → ℕ → Bytes
  /-- `A_i` under a nonce. -/
  counterBlock : Bytes → ℕ → Bytes

/-- The low `k` bytes of `n`, most significant first. -/
def toBE (k n : ℕ) : Bytes := (LittleEndian.toLE k n).reverse

/-- Block `i` of `data`, the last one filled up with zeros. -/
def paddedBlock (data : Bytes) (i : ℕ) : Bytes :=
  let block := (data.drop (16 * i)).take 16
  block ++ List.replicate (16 - block.length) 0

/-- The layout of RFC 3610 for tags of `M` bytes and a length field of `L` bytes. -/
def rfc3610 (M L : ℕ) : Format where
  macBlock
    | nonce, message, 0 =>
        UInt8.ofNat (8 * ((M - 2) / 2) + (L - 1)) :: nonce ++ toBE L message.length
    | _, message, i + 1 => paddedBlock message i
  counterBlock nonce i := UInt8.ofNat (L - 1) :: nonce ++ toBE L i

variable (cipher : BlockCipher) (format : Format) (key nonce : Bytes)

/-- The number of blocks of a message. -/
def blockCount (message : Bytes) : ℕ := (message.length + 15) / 16

/-- The CBC-MAC of `B_0, .., B_n`. -/
def mac (message : Bytes) : Bytes :=
  cipher.chain key (List.replicate 16 0)
    ((List.range (blockCount message + 1)).map (format.macBlock nonce message))

/-- Byte `j` of the key stream. -/
def streamByte (j : ℕ) : UInt8 :=
  (cipher.encrypt key (format.counterBlock nonce (j / 16 + 1))).getD (j % 16) 0

/-- `data` under the key stream. -/
def crypt (data : Bytes) : Bytes :=
  (List.range data.length).map fun j => data.getD j 0 ^^^ streamByte cipher format key nonce j

/-- The first `M` bytes of the masked CBC-MAC. -/
def tag (M : ℕ) (message : Bytes) : Bytes :=
  (List.range M).map fun i =>
    (mac cipher format key nonce message).getD i 0 ^^^
      (cipher.encrypt key (format.counterBlock nonce 0)).getD i 0

/-- CCM with tags of `M` bytes. -/
def aead (M : ℕ) : Aead where
  encrypt key nonce plain :=
    (crypt cipher format key nonce plain, tag cipher format key nonce M plain)
  decrypt key nonce cipherText mic :=
    if mic = tag cipher format key nonce M (crypt cipher format key nonce cipherText) then
      some (crypt cipher format key nonce cipherText)
    else none

variable {cipher format key nonce} {data message : Bytes}

@[simp] theorem length_crypt (data : Bytes) :
    (crypt cipher format key nonce data).length = data.length := by simp [crypt]

@[simp] theorem length_tag (M : ℕ) : (tag cipher format key nonce M message).length = M := by
  simp [tag]

@[simp] theorem length_toBE (k n : ℕ) : (toBE k n).length = k := by simp [toBE]

@[simp] theorem length_paddedBlock (data : Bytes) (i : ℕ) : (paddedBlock data i).length = 16 := by
  rw [paddedBlock, List.length_append, List.length_replicate, List.length_take]
  omega

theorem getElem_crypt {j : ℕ} (h : j < (crypt cipher format key nonce data).length) :
    (crypt cipher format key nonce data)[j] =
      data.getD j 0 ^^^ streamByte cipher format key nonce j := by
  simp only [crypt, List.getElem_map, List.getElem_range]

/-- The key stream put on twice is gone. -/
theorem crypt_crypt (data : Bytes) :
    crypt cipher format key nonce (crypt cipher format key nonce data) = data := by
  apply List.ext_getElem (by simp)
  intro j _ hj
  have hin : j < (crypt cipher format key nonce data).length := by rwa [length_crypt]
  rw [getElem_crypt, List.getD_eq_getElem _ _ hin, getElem_crypt, List.getD_eq_getElem _ _ hj,
    UInt8.xor_assoc, UInt8.xor_self, UInt8.xor_zero]

/-- CCM opens what it sealed, in any layout. -/
theorem aead_correct (cipher : BlockCipher) (format : Format) (M : ℕ) :
    (aead cipher format M).Correct M where
  cipher_length _ _ plain := length_crypt plain
  tag_length _ _ _ := length_tag M
  decrypt_encrypt key nonce plain := by
    simp only [aead, crypt_crypt, if_true]

end Ccm
