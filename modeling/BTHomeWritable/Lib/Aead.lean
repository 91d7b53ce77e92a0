import BTHomeWritable.Lib.LittleEndian

/-!
# Authenticated encryption as a parameter

An AEAD is a pair of functions on bytes.  What an idealised one promises
depends on what has been sealed: a tag of a few bytes cannot tell every frame
of the universe from every other, so rejection under a foreign key or nonce is
promised for the frames of a set `Sealed` of acts, those that key holders
performed.
-/

/-- Authenticated encryption without associated data. -/
structure Aead where
  /-- Key, nonce and plaintext to ciphertext and tag. -/
  encrypt : Bytes → Bytes → Bytes → Bytes × Bytes
  /-- Key, nonce, ciphertext and tag to the plaintext, if the tag is right. -/
  decrypt : Bytes → Bytes → Bytes → Bytes → Option Bytes

namespace Aead

/-- Opening what was sealed, and nothing but the lengths besides. -/
structure Correct (aead : Aead) (tagLength : ℕ) : Prop where
  cipher_length : ∀ key nonce plain, (aead.encrypt key nonce plain).1.length = plain.length
  tag_length : ∀ key nonce plain, (aead.encrypt key nonce plain).2.length = tagLength
  decrypt_encrypt : ∀ key nonce plain,
    aead.decrypt key nonce (aead.encrypt key nonce plain).1 (aead.encrypt key nonce plain).2 =
      some plain

/-- A correct AEAD for which the tag of an act of `Sealed` is good under no other key and no
other nonce, whatever ciphertext it is put on. -/
structure Ideal (aead : Aead) (tagLength : ℕ) (Sealed : Bytes → Bytes → Bytes → Prop) : Prop
    extends Correct aead tagLength where
  rejects : ∀ {key nonce plain key' nonce'} cipher, Sealed key nonce plain →
    (key', nonce') ≠ (key, nonce) →
    aead.decrypt key' nonce' cipher (aead.encrypt key nonce plain).2 = none

/-- An AEAD that leaves the plaintext in clear and whose tag tells one act from the rest. -/
def tagging (key₀ nonce₀ : Bytes) : Aead where
  encrypt key nonce plain := (plain, tag key nonce)
  decrypt key nonce cipher t := if t = tag key nonce then some cipher else none
where
  tag (key nonce : Bytes) : Bytes :=
    if (key, nonce) = (key₀, nonce₀) then [1, 1, 1, 1] else [0, 0, 0, 0]

theorem tagging_ideal (key₀ nonce₀ : Bytes) :
    (tagging key₀ nonce₀).Ideal 4 fun key nonce _ => (key, nonce) = (key₀, nonce₀) where
  cipher_length _ _ _ := rfl
  tag_length key nonce _ := by
    simp only [tagging, tagging.tag]
    split <;> rfl
  decrypt_encrypt _ _ _ := by simp [tagging]
  rejects := by
    intro key nonce plain key' nonce' cipher hsealed hne
    rw [hsealed] at hne
    simp only [tagging, tagging.tag, if_pos hsealed, if_neg hne]
    rfl

end Aead
