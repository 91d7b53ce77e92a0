import BTHomeWritable.Device.Ccm

/-!
# The blocks in the scratch buffer

What `macBlock` and `counters` leave in a slot does not depend on what was
there: each writes a block of `layout`.

A block is the flags, the nonce and a number in whatever bytes remain, written from
the back (`numberBytes`), or a piece of the message and zeros.  The shifts of a
JavaScript number come round after 32 bits, which is where `layout` and the blocks
of RFC 3610 part: `layout_eq_rfc3610_iff` says for which numbers they are the same
all the same, and `blocks_rfc3610_iff` says it of the blocks in the buffer.
`length_comes_twice` is a nonce that leaves five bytes for the number.
-/

namespace BTHomeWritable.Device.Ccm

open BlockCipher Buffers

/-- The number `n` as the loop of shifts writes it, the byte of shift 0 last. -/
def numberBytes (L n : ℕ) : Bytes :=
  ((List.range L).map fun i => byteOf (shr n (8 * i) &&& 255)).reverse

/-- The blocks of `AESCCM.js`. -/
def layout (M L : ℕ) : Ccm.Format where
  macBlock
    | nonce, pt, 0 => byteOf (macFlags M L) :: nonce ++ numberBytes L pt.length
    | _, pt, i + 1 => Ccm.paddedBlock pt i
  counterBlock nonce i := byteOf (BitVec.ofInt 32 ((L : ℤ) - 1)) :: nonce ++ numberBytes L i

variable {buf nonce pt : Bytes} {slot : ℕ}

@[simp] theorem length_numberBytes (L n : ℕ) : (numberBytes L n).length = L := by
  simp [numberBytes]

theorem fillZero_eq (buf : Bytes) (start : ℕ) :
    fillZero buf start (start + 16) =
      buf.take start ++ List.replicate 16 0 ++ buf.drop (start + 16) := by
  rw [fillZero, writeAt, List.length_replicate, Nat.add_sub_cancel_left]

/-- A write inside a slot that was cleared. -/
theorem writeAt_slot {start k : ℕ} (hstart : start ≤ buf.length) {mid src post : Bytes}
    (h : k + src.length ≤ mid.length) :
    writeAt (buf.take start ++ mid ++ post) (start + k) src =
      buf.take start ++ writeAt mid k src ++ post := by
  have hpre : (buf.take start).length = start := List.length_take_of_le hstart
  have hwithin : writeAt (buf.take start ++ mid ++ post) ((buf.take start).length + k) src =
      buf.take start ++ writeAt mid k src ++ post := writeAt_within h
  rwa [hpre] at hwithin

/-- Flags, nonce and number fill a slot. -/
theorem header_eq {L start : ℕ} (hL : nonce.length + L = 15) (hslot : start + 16 ≤ buf.length)
    (flags : UInt8) (n : ℕ) :
    putNumber (writeAt ((fillZero buf start (start + 16)).set start flags) (start + 1) nonce)
        start L n =
      writeAt buf start (flags :: nonce ++ numberBytes L n) := by
  have hpre : (buf.take start).length = start := List.length_take_of_le (by omega)
  -- the slot after each of the three writes, within what surrounds it
  have hflags : (fillZero buf start (start + 16)).set start flags =
      buf.take start ++ flags :: List.replicate 15 0 ++ buf.drop (start + 16) := by
    have hset : (buf.take start ++ List.replicate 16 0 ++ buf.drop (start + 16)).set
        ((buf.take start).length + 0) flags =
          buf.take start ++ (List.replicate 16 0).set 0 flags ++ buf.drop (start + 16) :=
      set_within (by simp) flags
    rw [hpre] at hset
    rw [fillZero_eq]
    exact hset
  have hnonce : writeAt (flags :: List.replicate 15 0) 1 nonce =
      flags :: nonce ++ List.replicate L 0 := by
    have hdrop : (flags :: List.replicate 15 (0 : UInt8)).drop (1 + nonce.length) =
        List.replicate L 0 := by
      rw [Nat.add_comm, List.drop_succ_cons, List.drop_replicate]
      congr 1
      omega
    rw [writeAt, hdrop]
    rfl
  have hmid : (flags :: nonce ++ List.replicate L (0 : UInt8)).length = 16 := by
    simp only [List.length_append, List.length_cons, List.length_replicate]
    omega
  have hnumber : (List.range L).foldl
      (fun b i => b.set (15 - i) (byteOf (shr n (8 * i) &&& 255)))
        (flags :: nonce ++ List.replicate L 0) = flags :: nonce ++ numberBytes L n := by
    have hkeep : (flags :: nonce ++ List.replicate L (0 : UInt8)).take (15 + 1 - L) =
        flags :: nonce := by
      have hcut : 15 + 1 - L = (flags :: nonce).length := by
        rw [List.length_cons]
        omega
      rw [hcut, List.take_left]
    rw [foldl_set_back _ hmid L (by omega), hkeep, numberBytes]
  have hplaces : ∀ i < L, 15 - i < (flags :: nonce ++ List.replicate L (0 : UInt8)).length ∧
      start + 15 - i = (buf.take start).length + (15 - i) := by
    intro i hi
    rw [hmid, hpre]
    omega
  have hwhole : (flags :: nonce ++ numberBytes L n).length = 16 := by
    simp only [List.length_append, List.length_cons, length_numberBytes]
    omega
  rw [hflags, writeAt_slot (by omega) (by simp; omega), hnonce, putNumber,
    foldl_set_within _ hplaces, hnumber, writeAt, hwhole]

/-- `counters` writes the block of the layout. -/
theorem counterBlock_eq (M : ℕ) {L : ℕ} (hL : nonce.length + L = 15)
    (hslot : slot * 16 + 16 ≤ buf.length) (i : ℕ) :
    counterBlock buf nonce L slot i =
      writeAt buf (slot * 16) ((layout M L).counterBlock nonce i) :=
  header_eq hL hslot _ i

theorem paddedBlock_eq (pt : Bytes) (i : ℕ) :
    writeAt (List.replicate 16 0) 0 ((pt.take (min (i * 16 + 16) pt.length)).drop (i * 16)) =
      Ccm.paddedBlock pt i := by
  have hcut : (pt.take (min (i * 16 + 16) pt.length)).drop (i * 16) =
      (pt.drop (16 * i)).take 16 := by
    rw [List.drop_take, Nat.mul_comm i 16, List.take_eq_take_iff, List.length_drop]
    omega
  rw [hcut, writeAt, List.take_zero, List.nil_append, Nat.zero_add, List.drop_replicate]
  rfl

/-- `macBlock` writes the block of the layout. -/
theorem macBlock_eq (M : ℕ) {L : ℕ} (hL : nonce.length + L = 15)
    (hslot : slot * 16 + 16 ≤ buf.length) (index : ℕ) (pt : Bytes) :
    macBlock buf slot index pt nonce M L =
      writeAt buf (slot * 16) ((layout M L).macBlock nonce pt index) := by
  cases index with
  | zero => exact header_eq hL hslot _ pt.length
  | succ i =>
      have hlen : ((pt.take (min (i * 16 + 16) pt.length)).drop (i * 16)).length ≤ 16 := by
        rw [List.length_drop, List.length_take]
        omega
      have hwrite : writeAt (buf.take (slot * 16) ++ List.replicate 16 0 ++
            buf.drop (slot * 16 + 16)) (slot * 16 + 0)
              ((pt.take (min (i * 16 + 16) pt.length)).drop (i * 16)) =
          buf.take (slot * 16) ++ Ccm.paddedBlock pt i ++ buf.drop (slot * 16 + 16) := by
        rw [writeAt_slot (by omega) (by rw [List.length_replicate]; omega), paddedBlock_eq]
      have hblock : writeAt buf (slot * 16) (Ccm.paddedBlock pt i) =
          buf.take (slot * 16) ++ Ccm.paddedBlock pt i ++ buf.drop (slot * 16 + 16) := by
        rw [writeAt, Ccm.length_paddedBlock]
      rw [macBlock, if_neg (Nat.succ_ne_zero i), Nat.add_sub_cancel, fillZero_eq]
      exact hwrite.trans hblock.symm

theorem length_layout_macBlock (M : ℕ) {L : ℕ} (hL : nonce.length + L = 15) (pt : Bytes)
    (i : ℕ) : ((layout M L).macBlock nonce pt i).length = 16 := by
  cases i with
  | zero =>
      simp only [layout, List.length_append, List.length_cons, length_numberBytes]
      omega
  | succ i => exact Ccm.length_paddedBlock pt i

theorem length_layout_counterBlock (M : ℕ) {L : ℕ} (hL : nonce.length + L = 15) (i : ℕ) :
    ((layout M L).counterBlock nonce i).length = 16 := by
  simp only [layout, List.length_append, List.length_cons, length_numberBytes]
  omega

/-- The blocks of a whole loop of `counters`. -/
theorem counterBlocks_eq (M : ℕ) {L index count : ℕ} (hL : nonce.length + L = 15)
    (hcount : count * 16 ≤ buf.length) :
    counterBlocks buf nonce L index count =
      (List.range count).flatMap (fun slot => (layout M L).counterBlock nonce (index + slot)) ++
        buf.drop (count * 16) := by
  apply foldl_writeAt (fun slot => length_layout_counterBlock M hL (index + slot)) hcount
  intro b slot hb hslot
  exact counterBlock_eq M hL (by omega) (index + slot)

/-! ## Shifts -/

theorem and_255_toNat (x : BitVec 32) : (x &&& 255).toNat = x.toNat % 256 := by
  rw [BitVec.toNat_and]
  exact Nat.and_two_pow_sub_one_eq_mod x.toNat 8

/-- A byte of a shifted number: the count only matters modulo 32, and the sign that comes in at
the top stays above the byte. -/
theorem byteOf_shr (n i : ℕ) :
    byteOf (shr n (8 * i) &&& 255) = UInt8.ofNat ((n >>> (8 * (i % 4))) % 256) := by
  have hcount : 8 * i % 32 = 8 * (i % 4) := by omega
  have hbyte : (shr n (8 * i) &&& 255).toNat = (n >>> (8 * (i % 4))) % 256 := by
    rw [and_255_toNat, shr, hcount]
    apply Nat.eq_of_testBit_eq
    intro j
    have hmask : (256 : ℕ) = 2 ^ 8 := rfl
    rw [hmask, Nat.testBit_mod_two_pow, Nat.testBit_mod_two_pow, Nat.testBit_shiftRight,
      BitVec.testBit_toNat, BitVec.getLsbD_sshiftRight]
    by_cases hj : j < 8
    · have hin : 8 * (i % 4) + j < 32 := by omega
      have hword : ¬ 32 ≤ j := by omega
      have hbit : (BitVec.ofNat 32 n).getLsbD (8 * (i % 4) + j) =
          n.testBit (8 * (i % 4) + j) := by
        rw [BitVec.getLsbD_ofNat, decide_eq_true hin, Bool.true_and]
      simp only [hj, hword, hin, hbit, decide_true, decide_false, Bool.true_and, Bool.not_false,
        if_true]
    · simp [hj]
  rw [byteOf, hbyte]

/-- The last byte of a number over four bytes is that of the number's low end again. -/
theorem numberBytes_eq (m n : ℕ) (hm : m ≤ 4) :
    numberBytes (4 + m) n = (LittleEndian.toLE 4 n ++ LittleEndian.toLE m n).reverse := by
  have hlow : (List.range 4).map (fun i => byteOf (shr n (8 * i) &&& 255)) =
      LittleEndian.toLE 4 n := by
    rw [← LittleEndian.map_range_shift_eq_toLE]
    apply List.map_congr_left
    intro i hi
    rw [byteOf_shr, Nat.mod_eq_of_lt (List.mem_range.mp hi)]
  have hhigh : (List.range m).map (fun i => byteOf (shr n (8 * (4 + i)) &&& 255)) =
      LittleEndian.toLE m n := by
    rw [← LittleEndian.map_range_shift_eq_toLE]
    apply List.map_congr_left
    intro i hi
    have hi4 : (4 + i) % 4 = i := by
      have := List.mem_range.mp hi
      omega
    rw [byteOf_shr, hi4]
  rw [numberBytes, List.range_add, List.map_append, List.map_map, hlow, ← hhigh]
  rfl

theorem numberBytes_eq_toBE {L : ℕ} (hL : L ≤ 4) (n : ℕ) : numberBytes L n = Ccm.toBE L n := by
  rw [numberBytes, Ccm.toBE, ← LittleEndian.map_range_shift_eq_toLE]
  congr 1
  apply List.map_congr_left
  intro i hi
  have hi4 : i < 4 := Nat.lt_of_lt_of_le (List.mem_range.mp hi) hL
  rw [byteOf_shr, Nat.mod_eq_of_lt hi4]

/-- A field of five to eight bytes is right for the numbers whose low bytes, which come again at
its top, are zero. -/
theorem numberBytes_eq_toBE_iff {L n : ℕ} (hL : L ≤ 8) (hn : n < 4294967296) :
    numberBytes L n = Ccm.toBE L n ↔ L ≤ 4 ∨ 256 ^ (L - 4) ∣ n := by
  rcases Nat.le_total L 4 with hle | hge
  · exact ⟨fun _ => Or.inl hle, fun _ => numberBytes_eq_toBE hle n⟩
  · obtain ⟨m, rfl⟩ := Nat.exists_eq_add_of_le hge
    have htop : n / 256 ^ 4 = 0 := Nat.div_eq_of_lt hn
    have hfield : Ccm.toBE (4 + m) n =
        (LittleEndian.toLE 4 n ++ List.replicate m 0).reverse := by
      rw [Ccm.toBE, LittleEndian.toLE_add, htop, LittleEndian.toLE_zero]
    rw [numberBytes_eq m n (by omega), hfield, List.reverse_inj, List.append_cancel_left_eq,
      LittleEndian.toLE_eq_zeros_iff, Nat.add_sub_cancel_left]
    constructor
    · exact Or.inr
    · rintro (hle | hdvd)
      · obtain rfl : m = 0 := by omega
        exact one_dvd n
      · exact hdvd

theorem macFlags_eq {M L : ℕ} (hM : 2 ≤ M ∧ M ≤ 16) (hL : 1 ≤ L ∧ L ≤ 8) :
    byteOf (macFlags M L) = UInt8.ofNat (8 * ((M - 2) / 2) + (L - 1)) := by
  have hall : ∀ M < 17, ∀ L < 9, 2 ≤ M → 1 ≤ L →
      byteOf (macFlags M L) = UInt8.ofNat (8 * ((M - 2) / 2) + (L - 1)) := by decide
  exact hall M (by omega) L (by omega) hM.1 hL.1

theorem counterFlags_eq {L : ℕ} (hL : 1 ≤ L ∧ L ≤ 8) :
    byteOf (BitVec.ofInt 32 ((L : ℤ) - 1)) = UInt8.ofNat (L - 1) := by
  have hall : ∀ L : ℕ, L < 9 → 1 ≤ L →
      byteOf (BitVec.ofInt 32 ((L : ℤ) - 1)) = UInt8.ofNat (L - 1) := by decide
  exact hall L (by omega) hL.1

/-! ## The blocks of RFC 3610 -/

/-- The sixteen bytes of a slot. -/
def slotOf (buf : Bytes) (slot : ℕ) : Bytes := (buf.drop (slot * 16)).take 16

theorem slotOf_append {pre block post : Bytes} (hpre : pre.length = slot * 16)
    (hblock : block.length = 16) : slotOf (pre ++ block ++ post) slot = block := by
  rw [slotOf, List.append_assoc, ← hpre, List.drop_left, ← hblock, List.take_left]

theorem slotOf_writeAt {block : Bytes} (hblock : block.length = 16)
    (hslot : slot * 16 ≤ buf.length) : slotOf (writeAt buf (slot * 16) block) slot = block :=
  slotOf_append (List.length_take_of_le hslot) hblock

theorem slotOf_flatMap {f : ℕ → Bytes} (hf : ∀ i, (f i).length = 16) {n i : ℕ} (hi : i < n)
    (post : Bytes) : slotOf ((List.range n).flatMap f ++ post) i = f i := by
  obtain ⟨k, rfl⟩ := Nat.exists_eq_add_of_le hi
  rw [List.range_add, List.range_succ, List.flatMap_append, List.flatMap_append,
    List.flatMap_singleton, List.append_assoc]
  exact slotOf_append (length_flatMap_range hf i) (hf i)

variable (nonce pt) in
/-- The blocks of the layout, compared field by field. -/
theorem layout_eq_rfc3610_iff {M L : ℕ} (hM : 2 ≤ M ∧ M ≤ 16) (hL : 1 ≤ L ∧ L ≤ 8) :
    (pt.length < 4294967296 → ((layout M L).macBlock nonce pt 0 =
      (Ccm.rfc3610 M L).macBlock nonce pt 0 ↔ L ≤ 4 ∨ 256 ^ (L - 4) ∣ pt.length)) ∧
    ∀ i < 4294967296, ((layout M L).counterBlock nonce i = (Ccm.rfc3610 M L).counterBlock nonce i ↔
      L ≤ 4 ∨ 256 ^ (L - 4) ∣ i) := by
  refine ⟨fun hpt => ?_, fun i hi => ?_⟩
  · rw [← numberBytes_eq_toBE_iff hL.2 hpt]
    simp only [layout, Ccm.rfc3610, macFlags_eq hM hL, List.cons_append, List.cons.injEq, true_and,
      List.append_cancel_left_eq]
  · rw [← numberBytes_eq_toBE_iff hL.2 hi]
    simp only [layout, Ccm.rfc3610, counterFlags_eq hL, List.cons_append, List.cons.injEq, true_and,
      List.append_cancel_left_eq]

/-- **The blocks of `macBlock` and `counters` are those of RFC 3610 exactly where the low bytes
that come again at the top of a long field are zero.** -/
theorem blocks_rfc3610_iff {buf nonce pt : Bytes} {M L slot index count : ℕ}
    (hbuf : buf.length = CHUNK) (hslot : slot < count ∧ count ≤ 2)
    (hL : L = 15 - nonce.length) (hnonce : 7 ≤ nonce.length ∧ nonce.length ≤ 12)
    (hM : Even M ∧ 4 ≤ M ∧ M ≤ 16) (hpt : pt.length < 2 ^ 31)
    (hindex : index + slot ≤ Ccm.blockCount pt) :
    (slotOf (macBlock buf slot 0 pt nonce M L) slot = (Ccm.rfc3610 M L).macBlock nonce pt 0 ↔
      L ≤ 4 ∨ 256 ^ (L - 4) ∣ pt.length) ∧
    (slotOf (counterBlocks buf nonce L index count) slot =
        (Ccm.rfc3610 M L).counterBlock nonce (index + slot) ↔
      L ≤ 4 ∨ 256 ^ (L - 4) ∣ index + slot) := by
  have hwhole : nonce.length + L = 15 := by omega
  have hfields := layout_eq_rfc3610_iff nonce pt (⟨by omega, hM.2.2⟩ : 2 ≤ M ∧ M ≤ 16)
    (⟨by omega, by omega⟩ : 1 ≤ L ∧ L ≤ 8)
  have hblocks : index + slot < 4294967296 := by
    rw [Ccm.blockCount] at hindex
    omega
  have hbuf32 : buf.length = 32 := hbuf
  constructor
  · rw [macBlock_eq M hwhole (by omega), slotOf_writeAt (length_layout_macBlock M hwhole pt 0)
      (by omega)]
    exact hfields.1 (by omega)
  · rw [counterBlocks_eq M hwhole (by omega), slotOf_flatMap
      (fun i => length_layout_counterBlock M hwhole (index + i)) hslot.1]
    exact hfields.2 _ hblocks

/-- With a nonce of twelve bytes all blocks of a message are right. -/
theorem blocks_rfc3610_iff_twelve :
    slotOf (macBlock (List.replicate 32 7) 1 0 [1, 2, 3] (List.replicate 12 9) 4 3) 1 =
        (Ccm.rfc3610 4 3).macBlock (List.replicate 12 9) [1, 2, 3] 0 ∧
      slotOf (counterBlocks (List.replicate 32 7) (List.replicate 12 9) 3 0 2) 1 =
        (Ccm.rfc3610 4 3).counterBlock (List.replicate 12 9) 1 :=
  have h := @blocks_rfc3610_iff (List.replicate 32 7) (List.replicate 12 9) [1, 2, 3] 4 3 1 0 2
    rfl (by decide) rfl (by decide) (by decide) (by decide) (by decide)
  ⟨h.1.mpr (Or.inl (by decide)), h.2.mpr (Or.inl (by decide))⟩

/-- A nonce of ten bytes and a message of one: the length and the first number come out as
`2 ^ 32 + 1`. -/
theorem length_comes_twice :
    slotOf (macBlock (List.replicate 32 0) 0 0 [0] (List.replicate 10 9) 4 5) 0 =
        12 :: List.replicate 10 9 ++ [1, 0, 0, 0, 1] ∧
      slotOf (macBlock (List.replicate 32 0) 0 0 [0] (List.replicate 10 9) 4 5) 0 ≠
        (Ccm.rfc3610 4 5).macBlock (List.replicate 10 9) [0] 0 ∧
      slotOf (counterBlocks (List.replicate 32 0) (List.replicate 10 9) 5 0 2) 1 =
        4 :: List.replicate 10 9 ++ [1, 0, 0, 0, 1] ∧
      slotOf (counterBlocks (List.replicate 32 0) (List.replicate 10 9) 5 0 2) 1 ≠
        (Ccm.rfc3610 4 5).counterBlock (List.replicate 10 9) 1 := by
  decide

end BTHomeWritable.Device.Ccm
