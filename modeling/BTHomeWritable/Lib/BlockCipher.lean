import BTHomeWritable.Lib.LittleEndian

/-!
# Block ciphers and their modes

A cipher of sixteen-byte blocks, the modes ECB and CBC on data of whole blocks,
and the chain of CBC, whose last value is the CBC-MAC.  Data that was put
together from blocks is cut into the same blocks again, so a mode applied to a
piece of the data is the mode applied to the blocks of that piece.
-/

/-- A cipher of blocks of sixteen bytes. -/
structure BlockCipher where
  /-- Key and block to the encrypted block. -/
  encrypt : Bytes → Bytes → Bytes
  length_encrypt : ∀ key {block}, block.length = 16 → (encrypt key block).length = 16

namespace BlockCipher

/-- Byte by byte. -/
def xor (a b : Bytes) : Bytes := List.zipWith (· ^^^ ·) a b

/-- The whole blocks of `data`, in order. -/
def blocks (data : Bytes) : List Bytes :=
  (List.range (data.length / 16)).map fun i => (data.drop (16 * i)).take 16

/-- Zeros up to a whole number of blocks. -/
def pad (data : Bytes) : Bytes := data ++ List.replicate ((16 - data.length % 16) % 16) 0

/-- All blocks are of sixteen bytes. -/
def Whole (bs : List Bytes) : Prop := ∀ b ∈ bs, b.length = 16

variable (cipher : BlockCipher) (key : Bytes)

/-- Each block on its own. -/
def ecb (data : Bytes) : Bytes := (blocks data).flatMap (cipher.encrypt key)

/-- The blocks of CBC: each is mixed with the one before it. -/
def cbcBlocks : Bytes → List Bytes → List Bytes
  | _, [] => []
  | iv, b :: rest =>
      cipher.encrypt key (xor iv b) :: cbcBlocks (cipher.encrypt key (xor iv b)) rest

def cbc (iv data : Bytes) : Bytes := (cbcBlocks cipher key iv (blocks data)).flatten

/-- What CBC comes to: with a zero `iv` this is the CBC-MAC. -/
def chain (iv : Bytes) (bs : List Bytes) : Bytes :=
  bs.foldl (fun state b => cipher.encrypt key (xor state b)) iv

variable {cipher : BlockCipher} {key iv data : Bytes} {bs : List Bytes}

/-! ## Cutting into blocks -/

@[simp] theorem length_xor (a b : Bytes) : (xor a b).length = min a.length b.length := by
  simp [xor]

theorem length_flatten_of_whole (h : Whole bs) : bs.flatten.length = 16 * bs.length := by
  induction bs with
  | nil => rfl
  | cons b bs ih =>
      have hb : b.length = 16 := h b List.mem_cons_self
      have hbs : bs.flatten.length = 16 * bs.length :=
        ih fun c hc => h c (List.mem_cons_of_mem b hc)
      rw [List.flatten_cons, List.length_append, hb, hbs, List.length_cons]
      omega

theorem blocks_cons {b : Bytes} (hb : b.length = 16) (rest : Bytes) :
    blocks (b ++ rest) = b :: blocks rest := by
  have hcount : (b ++ rest).length / 16 = rest.length / 16 + 1 := by
    rw [List.length_append, hb]
    omega
  rw [blocks, hcount, List.range_succ_eq_map, List.map_cons, List.map_map, blocks]
  congr 1
  · rw [Nat.mul_zero, List.drop_zero, ← hb, List.take_left]
  · apply List.map_congr_left
    intro i _
    have hdrop : (b ++ rest).drop (16 * (i + 1)) = rest.drop (16 * i) := by
      calc (b ++ rest).drop (16 * (i + 1)) = (b ++ rest).drop (b.length + 16 * i) := by
            rw [hb, Nat.mul_add, Nat.add_comm]
        _ = rest.drop (16 * i) := List.drop_length_add_append (16 * i)
    rw [Function.comp_apply, hdrop]

/-- Blocks put together come apart again. -/
theorem blocks_flatten (h : Whole bs) : blocks bs.flatten = bs := by
  induction bs with
  | nil => rfl
  | cons b bs ih =>
      rw [List.flatten_cons, blocks_cons (h b List.mem_cons_self),
        ih fun c hc => h c (List.mem_cons_of_mem b hc)]

theorem length_pad (data : Bytes) : (pad data).length = 16 * ((data.length + 15) / 16) := by
  rw [pad, List.length_append, List.length_replicate]
  omega

/-! ## The modes, block by block -/

theorem ecb_flatten (h : Whole bs) :
    ecb cipher key bs.flatten = bs.flatMap (cipher.encrypt key) := by
  rw [ecb, blocks_flatten h]

theorem cbcBlocks_ne_nil (h : bs ≠ []) : cbcBlocks cipher key iv bs ≠ [] := by
  cases bs with
  | nil => exact absurd rfl h
  | cons b bs => exact List.cons_ne_nil _ _

theorem length_chain (hiv : iv.length = 16) (h : Whole bs) :
    (chain cipher key iv bs).length = 16 := by
  induction bs generalizing iv with
  | nil => exact hiv
  | cons b bs ih =>
      have hb : b.length = 16 := h b List.mem_cons_self
      have hmix : (xor iv b).length = 16 := by rw [length_xor, hiv, hb]; rfl
      exact ih (cipher.length_encrypt key hmix) fun c hc => h c (List.mem_cons_of_mem b hc)

theorem chain_append (iv : Bytes) (bs cs : List Bytes) :
    chain cipher key iv (bs ++ cs) = chain cipher key (chain cipher key iv bs) cs :=
  List.foldl_append

theorem whole_cbcBlocks (hiv : iv.length = 16) (h : Whole bs) :
    Whole (cbcBlocks cipher key iv bs) := by
  induction bs generalizing iv with
  | nil => exact fun c hc => absurd hc List.not_mem_nil
  | cons b bs ih =>
      have hb : b.length = 16 := h b List.mem_cons_self
      have hmix : (xor iv b).length = 16 := by rw [length_xor, hiv, hb]; rfl
      have hout : (cipher.encrypt key (xor iv b)).length = 16 := cipher.length_encrypt key hmix
      intro c hc
      rcases List.mem_cons.mp hc with rfl | hc
      · exact hout
      · exact ih hout (fun d hd => h d (List.mem_cons_of_mem b hd)) c hc

theorem getLast_cbcBlocks (h : bs ≠ []) :
    (cbcBlocks cipher key iv bs).getLast (cbcBlocks_ne_nil h) = chain cipher key iv bs := by
  induction bs generalizing iv with
  | nil => exact absurd rfl h
  | cons b bs ih =>
      cases bs with
      | nil => rfl
      | cons c bs =>
          have hlast : (cbcBlocks cipher key (cipher.encrypt key (xor iv b)) (c :: bs)).getLast
              (cbcBlocks_ne_nil (List.cons_ne_nil c bs)) =
                chain cipher key (cipher.encrypt key (xor iv b)) (c :: bs) :=
            ih (List.cons_ne_nil c bs)
          rw [chain, List.foldl_cons, ← chain, ← hlast]
          exact List.getLast_cons (cbcBlocks_ne_nil (List.cons_ne_nil c bs))

/-- The last sixteen bytes of CBC are its chain. -/
theorem drop_cbc (hiv : iv.length = 16) (h : Whole bs) (hne : bs ≠ []) :
    (cbc cipher key iv bs.flatten).drop ((cbc cipher key iv bs.flatten).length - 16) =
      chain cipher key iv bs := by
  have hout : Whole (cbcBlocks cipher key iv bs) := whole_cbcBlocks hiv h
  have hsplit :=
    List.dropLast_concat_getLast (cbcBlocks_ne_nil hne : cbcBlocks cipher key iv bs ≠ [])
  rw [getLast_cbcBlocks hne] at hsplit
  have hcbc : cbc cipher key iv bs.flatten =
      (cbcBlocks cipher key iv bs).dropLast.flatten ++ chain cipher key iv bs := by
    rw [cbc, blocks_flatten h]
    conv_lhs => rw [← hsplit]
    rw [List.flatten_append, List.flatten_singleton]
  rw [hcbc, List.length_append, length_chain hiv h, Nat.add_sub_cancel, List.drop_left]

end BlockCipher
