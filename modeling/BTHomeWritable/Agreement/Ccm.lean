import BTHomeWritable.Device.CcmRefines
import BTHomeWritable.Tools.CcmReference

/-!
# The device's AES-CCM is the reference's

With a nonce of thirteen bytes the length field has two bytes, and the layout
of `AESCCM.js` is that of RFC 3610.  The device has no bound on the length: it
reduces it modulo 65536 where the reference raises.

Both sides have been brought to the library's CCM already, the device's in
`CcmRefines` and the reference's in `CcmReference`, each with its layout.  What is
left here is that the layouts agree (`layout_eq_rfc3610`).  Below the bound both
return the same; at and above it the reference raises, so whatever it returns the
device returns as well (`device_is_reference`).
-/

namespace BTHomeWritable.Agreement.Ccm

open Device.Ccm
open Tools

variable {AES : AesEncrypt} {cipher : BlockCipher} {key buf nonce : Bytes}

theorem layout_eq_rfc3610 : layout 4 2 = Ccm.rfc3610 4 2 := by
  have hfield : ∀ n, numberBytes 2 n = Ccm.toBE 2 n := numberBytes_eq_toBE (by decide)
  have hflags : byteOf (macFlags 4 2) = UInt8.ofNat (8 * ((4 - 2) / 2) + (2 - 1)) := by decide
  have hcounter : byteOf (BitVec.ofInt 32 (((2 : ℕ) : ℤ) - 1)) = UInt8.ofNat (2 - 1) := by decide
  apply Ccm.Format.ext
  · funext nonce message i
    cases i with
    | zero => simp only [layout, Ccm.rfc3610, hfield, hflags]
    | succ i => rfl
  · funext nonce i
    simp only [layout, Ccm.rfc3610, hfield, hcounter]

/-- What `encrypt` returns, without the buffer it leaves. -/
theorem encrypt_returns (haes : Implements AES cipher key) (hbuf : buf.length = CHUNK)
    (hnonce : nonce.length ≤ 15) (pt : Bytes) (M : Option ℕ) :
    (encrypt AES buf pt key nonce M).map Prod.fst =
      .ok ⟨Ccm.crypt cipher (layout (M.getD 4) (15 - nonce.length)) key nonce pt,
        Ccm.tag cipher (layout (M.getD 4) (15 - nonce.length)) key nonce (M.getD 4) pt⟩ := by
  obtain ⟨_, _, hencrypt⟩ := encrypt_eq haes hbuf hnonce pt M
  rw [hencrypt]
  rfl

theorem decrypt_returns (haes : Implements AES cipher key) (hbuf : buf.length = CHUNK)
    (hnonce : nonce.length ≤ 15) (ct mic : Bytes) :
    (decrypt AES buf ct key nonce mic).map Prod.fst =
      .ok ((Ccm.aead cipher (layout mic.length (15 - nonce.length)) mic.length).decrypt
        key nonce ct mic) := by
  obtain ⟨_, _, hdecrypt⟩ := decrypt_eq haes hbuf hnonce ct mic
  rw [hdecrypt]
  rfl

/-- **The device's AES-CCM equals the reference's.** -/
theorem device_is_reference (haes : Implements AES cipher key) (hbuf : buf.length = CHUNK)
    (hnonce : nonce.length = 13) :
    (∀ pt M, pt.length < 65536 → M.getD 4 = 4 →
      ∃ data mic, (encrypt AES buf pt key nonce M).map Prod.fst = .ok ⟨data, mic⟩ ∧
        CcmReference.encrypt cipher key nonce pt = .ok (data, mic)) ∧
    (∀ ct mic, mic.length = 4 →
      ∃ opened, (decrypt AES buf ct key nonce mic).map Prod.fst = .ok opened ∧
        (ct.length < 65536 → CcmReference.decrypt cipher key nonce ct mic = .ok opened) ∧
        ∀ r, CcmReference.decrypt cipher key nonce ct mic = .ok r → r = opened) ∧
    ∀ buf₂, buf₂.length = CHUNK →
      (∀ pt M, (encrypt AES buf pt key nonce M).map Prod.fst =
        (encrypt AES buf₂ pt key nonce M).map Prod.fst) ∧
      ∀ ct mic, (decrypt AES buf ct key nonce mic).map Prod.fst =
        (decrypt AES buf₂ ct key nonce mic).map Prod.fst := by
  have hshort : nonce.length ≤ 15 := by omega
  have hfour : 15 - nonce.length = 2 := by omega
  refine ⟨?_, ?_, ?_⟩
  · intro pt M hpt hM
    have hsealed := encrypt_returns haes hbuf hshort pt M
    rw [hM, hfour, layout_eq_rfc3610] at hsealed
    exact ⟨_, _, hsealed, CcmReference.encrypt_eq hnonce hpt⟩
  · intro ct mic hmic
    have hopened := decrypt_returns haes hbuf hshort ct mic
    rw [hmic, hfour, layout_eq_rfc3610] at hopened
    refine ⟨_, hopened, fun hct => CcmReference.decrypt_eq hnonce hct hmic, fun r hr => ?_⟩
    rcases Nat.lt_or_ge ct.length 65536 with hct | hct
    · rw [CcmReference.decrypt_eq hnonce hct hmic] at hr
      exact (Except.ok.inj hr).symm
    · exact absurd hr (CcmReference.decrypt_overflow hct r)
  · intro buf₂ hbuf₂
    constructor
    · intro pt M
      rw [encrypt_returns haes hbuf hshort pt M, encrypt_returns haes hbuf₂ hshort pt M]
    · intro ct mic
      rw [decrypt_returns haes hbuf hshort ct mic, decrypt_returns haes hbuf₂ hshort ct mic]

/-- A cipher that turns a block by one byte and mixes in the key. -/
def turning : BlockCipher where
  encrypt key block := (block.drop 1 ++ block.take 1).map (· ^^^ key.headD 0)
  length_encrypt key block h := by
    rw [List.length_map, List.length_append, List.length_drop, List.length_take]
    omega

/-- A firmware for it. -/
def turningAes : AesEncrypt := fun data key options =>
  match options with
  | .cbc iv => some (turning.cbc key iv data)
  | .ecb => some (turning.ecb key data)

theorem turningAes_implements (key : Bytes) : Implements turningAes turning key where
  cbc _ _ _ := rfl
  ecb _ _ := rfl

/-- A message of seventeen bytes, over a buffer that was used before. -/
theorem device_is_reference_turning :
    ∃ data mic, (encrypt turningAes (List.replicate 32 7) (List.replicate 17 1) [5]
        (List.replicate 13 9) none).map Prod.fst = .ok ⟨data, mic⟩ ∧
      CcmReference.encrypt turning [5] (List.replicate 13 9) (List.replicate 17 1) =
        .ok (data, mic) :=
  (device_is_reference (turningAes_implements [5])
    (rfl : (List.replicate 32 (7 : UInt8)).length = CHUNK) rfl).1 (List.replicate 17 1) none
      (by decide) rfl

end BTHomeWritable.Agreement.Ccm
