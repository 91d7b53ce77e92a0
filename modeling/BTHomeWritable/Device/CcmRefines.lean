import BTHomeWritable.Device.CcmBlocks

/-!
# `encrypt` and `decrypt` are CCM

On a firmware whose `AES.encrypt` is CBC and ECB of a cipher (`Implements`), for
data of at most one chunk.

* The MAC loop chains through the IV, two blocks a turn: `tagLoop_eq` says that
  from any turn on it goes on with the chain from its carry, and `tagOf_eq`
  that the tag is the chain of all the blocks.
* The stream loop has `A_0` in its first turn, so its blocks lie one off those of
  the message.  `streamed` is the data after a number of blocks, and
  `streamSlot_streamed`, `foldl_streamSlot` and `streamLoop_eq` take it from one
  slot to one turn to the loop.
* `diff_eq_zero_iff`: the bytes folded into `diff` are all zero just where the
  tags agree.

`encrypt_eq` and `decrypt_eq` say that the two functions are those of `Lib.Ccm`
with the layout of `CcmBlocks`, and `decrypt_encrypt` that they undo each other.
-/

namespace BTHomeWritable.Device.Ccm

open BlockCipher Buffers

/-- `AES.encrypt` is CBC and ECB of `cipher`, for the sizes the module asks for. -/
structure Implements (AES : AesEncrypt) (cipher : BlockCipher) (key : Bytes) : Prop where
  cbc : ∀ {iv data}, iv.length = 16 → data.length % 16 = 0 → data.length ≤ CHUNK →
    AES data key (.cbc iv) = some (cipher.cbc key iv data)
  ecb : ∀ {data}, data.length % 16 = 0 → data.length ≤ CHUNK →
    AES data key .ecb = some (cipher.ecb key data)

variable {AES : AesEncrypt} {cipher : BlockCipher} {key buf nonce pt source : Bytes} {M L : ℕ}

/-! ## The MAC -/

theorem whole_map {f : ℕ → Bytes} (hf : ∀ i, (f i).length = 16) (is : List ℕ) :
    Whole (is.map f) := by
  intro b hb
  obtain ⟨i, _, rfl⟩ := List.mem_map.mp hb
  exact hf i

/-- The buffer after the inner loop of `tagOf`. -/
theorem macBlocks_eq (hL : nonce.length + L = 15) {index count : ℕ}
    (hcount : count * 16 ≤ buf.length) :
    (List.range count).foldl (fun buf slot => macBlock buf slot (index + slot) pt nonce M L) buf =
      ((List.range' index count).map ((layout M L).macBlock nonce pt)).flatten ++
        buf.drop (count * 16) := by
  have hblocks : (List.range count).flatMap
        (fun slot => (layout M L).macBlock nonce pt (index + slot)) =
      ((List.range' index count).map ((layout M L).macBlock nonce pt)).flatten := by
    rw [List.range'_eq_map_range, List.map_map, List.flatMap_def]
    rfl
  rw [← hblocks]
  apply foldl_writeAt (fun slot => length_layout_macBlock M hL pt (index + slot)) hcount
  intro b slot hb hslot
  exact macBlock_eq M hL (by omega) (index + slot) pt

/-- A call for the blocks `bs`, at most two, at the front of the buffer. -/
theorem take_chunk {bs : List Bytes} (hbs : Whole bs) {count : ℕ} (hcount : bs.length = count)
    (post : Bytes) : (bs.flatten ++ post).take (count * 16) = bs.flatten := by
  have hlen : bs.flatten.length = count * 16 := by
    rw [length_flatten_of_whole hbs, hcount, Nat.mul_comm]
  rw [← hlen, List.take_left]

theorem aes_cbc (haes : Implements AES cipher key) {bs : List Bytes} (hbs : Whole bs)
    (hcount : bs.length ≤ 2) {iv : Bytes} (hiv : iv.length = 16) :
    aes AES bs.flatten key (.cbc iv) = .ok (cipher.cbc key iv bs.flatten) := by
  have hlen : bs.flatten.length = 16 * bs.length := length_flatten_of_whole hbs
  rw [aes, haes.cbc hiv (by omega) (by rw [CHUNK]; omega)]

theorem aes_ecb (haes : Implements AES cipher key) {bs : List Bytes} (hbs : Whole bs)
    (hcount : bs.length ≤ 2) :
    aes AES bs.flatten key .ecb = .ok (bs.flatMap (cipher.encrypt key)) := by
  have hlen : bs.flatten.length = 16 * bs.length := length_flatten_of_whole hbs
  rw [aes, haes.ecb (by omega) (by rw [CHUNK]; omega), ecb_flatten hbs]

/-- The MAC loop from `index` on: the chain goes on from `carry`. -/
theorem tagLoop_eq (haes : Implements AES cipher key) (hL : nonce.length + L = 15) {total : ℕ}
    {carry : Bytes} (hbuf : buf.length = CHUNK) (hcarry : carry.length = 16) {index : ℕ} :
    ∃ buf', buf'.length = CHUNK ∧ tagLoop AES key pt nonce M L total buf carry index =
      .ok (cipher.chain key carry
        ((List.range' index (total - index)).map ((layout M L).macBlock nonce pt)), buf') := by
  induction hleft : total - index using Nat.strong_induction_on generalizing index buf carry with
  | _ left ih =>
      rw [tagLoop]
      by_cases hmore : index < total
      · have hbuf32 : buf.length = 32 := hbuf
        -- a turn takes two blocks, or the last one alone
        obtain ⟨count, hcount⟩ : ∃ count, count = min 2 (total - index) := ⟨_, rfl⟩
        obtain ⟨bs, hbs⟩ :
            ∃ bs, bs = (List.range' index count).map ((layout M L).macBlock nonce pt) := ⟨_, rfl⟩
        have hwhole : Whole bs := hbs ▸ whole_map (length_layout_macBlock M hL pt) _
        have hblocks : bs.length = count := by rw [hbs, List.length_map, List.length_range']
        have hne : bs ≠ [] := by
          rintro rfl
          rw [List.length_nil] at hblocks
          omega
        have hwrite : (List.range count).foldl
            (fun buf slot => macBlock buf slot (index + slot) pt nonce M L) buf =
              bs.flatten ++ buf.drop (count * 16) := hbs ▸ macBlocks_eq hL (by omega)
        have hlen : (bs.flatten ++ buf.drop (count * 16)).length = CHUNK := by
          rw [List.length_append, length_flatten_of_whole hwhole, List.length_drop, hblocks, CHUNK]
          omega
        obtain ⟨buf', hbuf', hloop⟩ := ih (total - (index + count)) (by omega) hlen
          (length_chain hcarry hwhole : (cipher.chain key carry bs).length = 16) rfl
        -- the blocks of this turn and those of the later ones
        have hsplit : List.range' index left =
            List.range' index count ++ List.range' (index + count) (total - (index + count)) := by
          rw [List.range'_append_1]
          congr 1
          omega
        refine ⟨buf', hbuf', ?_⟩
        rw [if_pos hmore, ← hcount]
        dsimp only
        rw [hwrite, take_chunk hwhole hblocks, aes_cbc haes hwhole (by omega) hcarry]
        simp only [bind, Except.bind]
        rw [drop_cbc hcarry hwhole hne, hloop, hsplit, List.map_append, ← hbs, chain_append]
      · refine ⟨buf, hbuf, ?_⟩
        rw [if_neg hmore]
        obtain rfl : left = 0 := by omega
        rfl

/-- `tagOf` is the CBC-MAC. -/
theorem tagOf_eq (haes : Implements AES cipher key) (hL : nonce.length + L = 15)
    (hbuf : buf.length = CHUNK) :
    ∃ buf', buf'.length = CHUNK ∧ tagOf AES buf key pt nonce M L =
      .ok (Ccm.mac cipher (layout M L) key nonce pt, buf') := by
  obtain ⟨buf', hbuf', hloop⟩ := tagLoop_eq haes hL hbuf (rfl : ZERO.length = 16)
  refine ⟨buf', hbuf', hloop.trans ?_⟩
  rw [Nat.sub_zero, ← List.range_eq_range']
  rfl

/-! ## The key stream -/

/-- `E(A_i)`. -/
def maskBlock (cipher : BlockCipher) (key nonce : Bytes) (M L i : ℕ) : Bytes :=
  cipher.encrypt key ((layout M L).counterBlock nonce i)

theorem length_maskBlock (hL : nonce.length + L = 15) (i : ℕ) :
    (maskBlock cipher key nonce M L i).length = 16 :=
  cipher.length_encrypt key (length_layout_counterBlock M hL i)

/-- `data` and `s0` once the blocks before `A_n` have been used. -/
def streamed (cipher : BlockCipher) (key nonce source : Bytes) (M L n : ℕ) :
    Bytes × Option Bytes :=
  ((List.range source.length).map fun j =>
      if j < (n - 1) * 16 then
        source.getD j 0 ^^^ Ccm.streamByte cipher (layout M L) key nonce j
      else 0,
    if n = 0 then none else some (maskBlock cipher key nonce M L 0))

/-- The blocks a turn gets, and the buffer it leaves. -/
theorem counters_eq (M : ℕ) (haes : Implements AES cipher key) (hL : nonce.length + L = 15)
    (hbuf : buf.length = CHUNK) {index count : ℕ} (hcount : count ≤ 2) :
    ∃ buf', buf'.length = CHUNK ∧ counters AES buf key nonce L index count =
      .ok ((List.range count).flatMap fun slot => maskBlock cipher key nonce M L (index + slot),
        buf') := by
  have hbuf32 : buf.length = 32 := hbuf
  obtain ⟨bs, hbs⟩ : ∃ bs, bs = (List.range count).map
    fun slot => (layout M L).counterBlock nonce (index + slot) := ⟨_, rfl⟩
  have hwhole : Whole bs := hbs ▸ whole_map (fun i => length_layout_counterBlock M hL (index + i)) _
  have hblocks : bs.length = count := by rw [hbs, List.length_map, List.length_range]
  have hwrite : counterBlocks buf nonce L index count = bs.flatten ++ buf.drop (count * 16) := by
    rw [counterBlocks_eq M hL (by omega), hbs, List.flatMap_def]
  refine ⟨bs.flatten ++ buf.drop (count * 16), ?_, ?_⟩
  · rw [List.length_append, length_flatten_of_whole hwhole, List.length_drop, hblocks, CHUNK]
    omega
  · rw [counters, hwrite, take_chunk hwhole hblocks, aes_ecb haes hwhole (by omega)]
    simp only [bind, Except.bind, pure, Except.pure]
    rw [hbs, List.flatMap_map]
    rfl

/-- One block of a turn: the first of all is the tag's mask, the others lie one off. -/
theorem streamSlot_streamed (hL : nonce.length + L = 15) {index count slot : ℕ}
    (hslot : slot < count) :
    streamSlot source
        ((List.range count).flatMap fun slot => maskBlock cipher key nonce M L (index + slot)) index
        (streamed cipher key nonce source M L (index + slot)) slot =
      streamed cipher key nonce source M L (index + slot + 1) := by
  have hlen : ∀ i, (maskBlock cipher key nonce M L (index + i)).length = 16 :=
    fun i => length_maskBlock hL (index + i)
  rw [streamSlot]
  by_cases hzero : index + slot = 0
  · obtain ⟨rfl, rfl⟩ : index = 0 ∧ slot = 0 := by omega
    have hfirst := slotOf_flatMap hlen hslot []
    rw [slotOf, Nat.zero_mul, List.drop_zero, List.append_nil] at hfirst
    rw [if_pos rfl, hfirst]
    rfl
  · rw [if_neg hzero]
    simp only [streamed, if_neg hzero, Nat.succ_ne_zero, if_false, Nat.add_sub_cancel]
    rw [foldl_set_map_range]
    congr 1
    apply List.map_congr_left
    intro j hj
    have hin : j < source.length := List.mem_range.mp hj
    by_cases hhere : (index + slot - 1) * 16 ≤ j ∧ j < (index + slot) * 16
    · -- `j` lies in the block of this slot
      have hoff : slot * 16 + j - (index + slot - 1) * 16 =
          slot * 16 + (j - (index + slot - 1) * 16) := by omega
      have hblock : j / 16 + 1 = index + slot := by omega
      have hbyte : j % 16 = j - (index + slot - 1) * 16 := by omega
      have hwritten : (index + slot - 1) * 16 ≤ j ∧ j < (index + slot - 1) * 16 +
          (min ((index + slot - 1) * 16 + 16) source.length - (index + slot - 1) * 16) := by omega
      rw [if_pos hwritten, if_pos hhere.2, hoff, getD_flatMap hlen hslot (by omega),
        Ccm.streamByte, hblock, hbyte]
      rfl
    · have hkept : ¬ ((index + slot - 1) * 16 ≤ j ∧ j < (index + slot - 1) * 16 +
          (min ((index + slot - 1) * 16 + 16) source.length - (index + slot - 1) * 16)) := by omega
      have hsame : j < (index + slot - 1) * 16 ↔ j < (index + slot) * 16 := by omega
      simp only [if_neg hkept, hsame]

/-- A whole turn. -/
theorem foldl_streamSlot (hL : nonce.length + L = 15) {index count : ℕ} :
    (List.range count).foldl
        (streamSlot source ((List.range count).flatMap fun slot =>
          maskBlock cipher key nonce M L (index + slot)) index)
        (streamed cipher key nonce source M L index) =
      streamed cipher key nonce source M L (index + count) := by
  have hturn : ∀ n ≤ count, (List.range n).foldl
        (streamSlot source ((List.range count).flatMap fun slot =>
          maskBlock cipher key nonce M L (index + slot)) index)
        (streamed cipher key nonce source M L index) =
      streamed cipher key nonce source M L (index + n) := by
    intro n
    induction n with
    | zero => exact fun _ => rfl
    | succ n ih =>
        intro hn
        rw [List.range_succ, List.foldl_append, ih (by omega)]
        exact streamSlot_streamed hL hn
  exact hturn count le_rfl

/-- The stream loop from `index` on. -/
theorem streamLoop_eq (haes : Implements AES cipher key) (hL : nonce.length + L = 15) {blocks : ℕ}
    (hbuf : buf.length = CHUNK) {index : ℕ} (hindex : index ≤ blocks + 1) :
    ∃ buf', buf'.length = CHUNK ∧ streamLoop AES source key nonce L blocks buf
        (streamed cipher key nonce source M L index) index =
      .ok (streamed cipher key nonce source M L (blocks + 1), buf') := by
  induction hleft : blocks + 1 - index using Nat.strong_induction_on generalizing index buf with
  | _ left ih =>
      rw [streamLoop]
      by_cases hmore : index ≤ blocks
      · obtain ⟨count, hcount⟩ : ∃ count, count = min 2 (blocks + 1 - index) := ⟨_, rfl⟩
        obtain ⟨buf₁, hbuf₁, hcounters⟩ :=
          counters_eq M haes hL hbuf (by omega : count ≤ 2)
        obtain ⟨buf', hbuf', hloop⟩ :=
          ih (blocks + 1 - (index + count)) (by omega) hbuf₁ (by omega) rfl
        refine ⟨buf', hbuf', ?_⟩
        rw [if_pos hmore, ← hcount]
        dsimp only
        rw [hcounters]
        simp only [bind, Except.bind]
        rw [foldl_streamSlot hL, hloop]
      · obtain rfl : index = blocks + 1 := by omega
        refine ⟨buf, hbuf, ?_⟩
        rw [if_neg hmore]

/-- `stream` over zeros is the counter mode, and hands back the mask of the tag. -/
theorem stream_eq (M : ℕ) (haes : Implements AES cipher key) (hL : nonce.length + L = 15)
    (hbuf : buf.length = CHUNK) :
    ∃ buf', buf'.length = CHUNK ∧
      stream AES buf (List.replicate source.length 0) source key nonce L =
        .ok ((Ccm.crypt cipher (layout M L) key nonce source,
          some (maskBlock cipher key nonce M L 0)), buf') := by
  obtain ⟨buf', hbuf', hloop⟩ := streamLoop_eq haes hL hbuf (Nat.zero_le _)
  refine ⟨buf', hbuf', ?_⟩
  have hstart : (List.replicate source.length (0 : UInt8), (none : Option Bytes)) =
      streamed cipher key nonce source M L 0 := by
    simp [streamed, List.map_const']
  have hend : streamed cipher key nonce source M L ((source.length + 15) / 16 + 1) =
      (Ccm.crypt cipher (layout M L) key nonce source,
        some (maskBlock cipher key nonce M L 0)) := by
    rw [streamed, if_neg (Nat.succ_ne_zero _), Ccm.crypt]
    congr 1
    apply List.map_congr_left
    intro j hj
    have hin : j < source.length := List.mem_range.mp hj
    rw [if_pos (by omega)]
  rw [stream, hstart, hloop, hend]

/-! ## Sealing and opening -/

/-- `encrypt` is CCM's, whatever the buffer held. -/
theorem encrypt_eq (haes : Implements AES cipher key) (hbuf : buf.length = CHUNK)
    (hnonce : nonce.length ≤ 15) (pt : Bytes) (M : Option ℕ) :
    ∃ buf', buf'.length = CHUNK ∧ encrypt AES buf pt key nonce M =
      .ok (⟨Ccm.crypt cipher (layout (M.getD 4) (15 - nonce.length)) key nonce pt,
        Ccm.tag cipher (layout (M.getD 4) (15 - nonce.length)) key nonce (M.getD 4) pt⟩, buf') := by
  have hL : nonce.length + (15 - nonce.length) = 15 := by omega
  obtain ⟨buf₁, hbuf₁, htag⟩ := tagOf_eq haes hL hbuf
  obtain ⟨buf₂, hbuf₂, hstream⟩ := stream_eq (M.getD 4) haes hL hbuf₁
  refine ⟨buf₂, hbuf₂, ?_⟩
  rw [encrypt]
  simp only [bind, Except.bind, pure, Except.pure]
  rw [htag]
  simp only
  rw [hstream]
  rfl

/-- No byte differs. -/
theorem foldl_or_eq_zero_iff (f : ℕ → UInt8) (n : ℕ) :
    (List.range n).foldl (fun diff i => diff ||| f i) 0 = 0 ↔ ∀ i < n, f i = 0 := by
  induction n with
  | zero => simp
  | succ n ih =>
      rw [List.range_succ, List.foldl_append, List.foldl_cons, List.foldl_nil, UInt8.or_eq_zero_iff,
        ih, Nat.forall_lt_succ_right]

theorem diff_eq_zero_iff {mic : Bytes} (f : ℕ → UInt8) :
    (List.range mic.length).foldl (fun diff i => diff ||| (f i ^^^ mic.getD i 0)) 0 = 0 ↔
      mic = (List.range mic.length).map f := by
  rw [foldl_or_eq_zero_iff]
  constructor
  · intro hall
    apply List.ext_getElem (by simp)
    intro i hi _
    have hbyte : f i ^^^ mic.getD i 0 = 0 := hall i hi
    rw [List.getElem_map, List.getElem_range, UInt8.xor_eq_zero_iff.mp hbyte,
      List.getD_eq_getElem _ _ hi]
  · intro heq i hi
    have hbyte : mic.getD i 0 = f i := by
      rw [heq, List.getD_eq_getElem _ _ (by simpa using hi), List.getElem_map, List.getElem_range]
    rw [hbyte, UInt8.xor_self]

/-- `decrypt` is CCM's, whatever the buffer held. -/
theorem decrypt_eq (haes : Implements AES cipher key) (hbuf : buf.length = CHUNK)
    (hnonce : nonce.length ≤ 15) (ct mic : Bytes) :
    ∃ buf', buf'.length = CHUNK ∧ decrypt AES buf ct key nonce mic =
      .ok ((Ccm.aead cipher (layout mic.length (15 - nonce.length)) mic.length).decrypt
        key nonce ct mic, buf') := by
  have hL : nonce.length + (15 - nonce.length) = 15 := by omega
  obtain ⟨buf₁, hbuf₁, hstream⟩ := stream_eq mic.length haes hL hbuf
  obtain ⟨buf₂, hbuf₂, htag⟩ := tagOf_eq haes hL hbuf₁
  refine ⟨buf₂, hbuf₂, ?_⟩
  rw [decrypt]
  simp only [bind, Except.bind, pure, Except.pure]
  rw [hstream]
  simp only
  rw [htag]
  simp only [diff_eq_zero_iff]
  rfl

/-- `decrypt` opens what `encrypt` sealed, for every nonce the module can hold: the layout does
not matter, as both use the same one. -/
theorem decrypt_encrypt (haes : Implements AES cipher key) (hbuf : buf.length = CHUNK)
    (hnonce : nonce.length ≤ 15) (M : Option ℕ) :
    ∃ sealed₁ buf₁ buf₂, encrypt AES buf pt key nonce M = .ok (sealed₁, buf₁) ∧
      decrypt AES buf₁ sealed₁.data key nonce sealed₁.mic = .ok (some pt, buf₂) := by
  obtain ⟨buf₁, hbuf₁, hencrypt⟩ := encrypt_eq haes hbuf hnonce pt M
  obtain ⟨buf₂, _, hdecrypt⟩ := decrypt_eq haes hbuf₁ hnonce
    (Ccm.crypt cipher (layout (M.getD 4) (15 - nonce.length)) key nonce pt)
    (Ccm.tag cipher (layout (M.getD 4) (15 - nonce.length)) key nonce (M.getD 4) pt)
  refine ⟨_, buf₁, buf₂, hencrypt, hdecrypt.trans ?_⟩
  rw [Ccm.length_tag]
  exact congrArg (fun opened => Except.ok (opened, buf₂))
    ((Ccm.aead_correct cipher (layout (M.getD 4) (15 - nonce.length)) (M.getD 4)).decrypt_encrypt
      key nonce pt)

end BTHomeWritable.Device.Ccm
