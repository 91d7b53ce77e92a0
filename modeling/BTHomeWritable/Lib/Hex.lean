import BTHomeWritable.Lib.LittleEndian

/-!
# Bytes as hexadecimal text

Texts are lists of characters.  A digit is read in either case; a byte is
written as two digits, and several bytes with a separator between them, which
may be any character that is not a digit.
-/

namespace Hex

inductive Case where
  | lower
  | upper

/-- The value of a digit. -/
def value? (c : Char) : Option ℕ :=
  if '0' ≤ c ∧ c ≤ '9' then some (c.toNat - 48)
  else if 'a' ≤ c ∧ c ≤ 'f' then some (c.toNat - 87)
  else if 'A' ≤ c ∧ c ≤ 'F' then some (c.toNat - 55)
  else none

def digit : Case → ℕ → Char
  | .lower, n => Char.ofNat (if n < 10 then 48 + n else 87 + n)
  | .upper, n => Char.ofNat (if n < 10 then 48 + n else 55 + n)

theorem value?_digit (letters : Case) {n : ℕ} (hn : n < 16) :
    value? (digit letters n) = some n := by
  have hall : ∀ n < 16, value? (digit letters n) = some n := by
    cases letters <;> decide
  exact hall n hn

def byteText (letters : Case) (b : UInt8) : List Char :=
  [digit letters (b.toNat / 16), digit letters (b.toNat % 16)]

/-- The bytes with `sep` between them. -/
def joined (letters : Case) (sep : Char) : Bytes → List Char
  | [] => []
  | [b] => byteText letters b
  | b :: c :: rest => byteText letters b ++ sep :: joined letters sep (c :: rest)

variable {letters : Case} {sep : Char}

theorem value?_high (b : UInt8) :
    value? (digit letters (b.toNat / 16)) = some (b.toNat / 16) := by
  have hb : b.toNat < 256 := b.toNat_lt
  exact value?_digit letters (by omega)

theorem value?_low (b : UInt8) :
    value? (digit letters (b.toNat % 16)) = some (b.toNat % 16) :=
  value?_digit letters (by omega)

theorem isSome_value?_of_mem_byteText {b : UInt8} {c : Char} (hc : c ∈ byteText letters b) :
    (value? c).isSome := by
  simp only [byteText, List.mem_cons, List.not_mem_nil, or_false] at hc
  rcases hc with rfl | rfl
  · rw [value?_high]
    rfl
  · rw [value?_low]
    rfl

theorem notMem_byteText (hsep : value? sep = none) (b : UInt8) : sep ∉ byteText letters b := by
  intro hmem
  have hdigit := isSome_value?_of_mem_byteText hmem
  rw [hsep] at hdigit
  exact absurd hdigit (by simp)

theorem ofNat_halves (b : UInt8) : UInt8.ofNat (b.toNat / 16 * 16 + b.toNat % 16) = b := by
  have hsum : b.toNat / 16 * 16 + b.toNat % 16 = b.toNat := by omega
  rw [hsum]
  exact UInt8.ofNat_toNat

theorem mem_joined {bs : Bytes} {c : Char} (hc : c ∈ joined letters sep bs) :
    c = sep ∨ (value? c).isSome := by
  induction bs with
  | nil => simp [joined] at hc
  | cons b rest ih =>
      cases rest with
      | nil => exact Or.inr (isSome_value?_of_mem_byteText hc)
      | cons d rest =>
          rw [joined, List.mem_append, List.mem_cons] at hc
          rcases hc with hc | hc | hc
          · exact Or.inr (isSome_value?_of_mem_byteText hc)
          · exact Or.inl hc
          · exact ih hc

/-- Dropping the separators leaves the digits. -/
theorem filter_joined {keep : Char → Bool} (hkeep : ∀ c, (value? c).isSome → keep c)
    (hsep : keep sep = false) (bs : Bytes) :
    (joined letters sep bs).filter keep = bs.flatMap (byteText letters) := by
  have hbyte : ∀ b, (byteText letters b).filter keep = byteText letters b := by
    intro b
    rw [List.filter_eq_self]
    exact fun c hc => hkeep c (isSome_value?_of_mem_byteText hc)
  induction bs with
  | nil => rfl
  | cons b rest ih =>
      cases rest with
      | nil => simp [joined, hbyte]
      | cons d rest =>
          rw [joined, List.filter_append, hbyte, List.filter_cons_of_neg (by simp [hsep]), ih]
          rfl

/-- Splitting at the separators gives the bytes' texts back. -/
theorem splitOn_joined (hsep : value? sep = none) {bs : Bytes} (hbs : bs ≠ []) :
    (joined letters sep bs).splitOn sep = bs.map (byteText letters) := by
  induction bs with
  | nil => exact absurd rfl hbs
  | cons b rest ih =>
      cases rest with
      | nil => simp [joined, List.splitOn_eq_singleton (notMem_byteText hsep b)]
      | cons d rest =>
          rw [joined, List.splitOn_append_cons_self_of_not_mem (notMem_byteText hsep b),
            ih (by simp)]
          rfl

end Hex
