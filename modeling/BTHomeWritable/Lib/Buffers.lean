import Mathlib.Data.List.GetD

/-!
# Writing into a buffer of fixed length

`writeAt buf start src` puts the elements of `src` over those of `buf` from
`start` on.  Where a write stays inside a part of the buffer the rest does not
matter: `writeAt_within` and `set_within` move it there.  A run of writes that
covers the front of the buffer leaves nothing of what was there.
-/

namespace Buffers

variable {α : Type*}

/-- `src` over the elements of `buf` from `start` on. -/
def writeAt (buf : List α) (start : ℕ) (src : List α) : List α :=
  buf.take start ++ src ++ buf.drop (start + src.length)

variable {buf pre mid post src : List α}

theorem writeAt_within {k : ℕ} (h : k + src.length ≤ mid.length) :
    writeAt (pre ++ mid ++ post) (pre.length + k) src = pre ++ writeAt mid k src ++ post := by
  have htake : (pre ++ mid ++ post).take (pre.length + k) = pre ++ mid.take k := by
    rw [List.append_assoc, List.take_length_add_append,
      List.take_append_of_le_length (by omega : k ≤ mid.length)]
  have hdrop : (pre ++ mid ++ post).drop (pre.length + k + src.length) =
      mid.drop (k + src.length) ++ post := by
    rw [List.append_assoc, Nat.add_assoc, List.drop_length_add_append,
      List.drop_append_of_le_length h]
  rw [writeAt, htake, hdrop, writeAt]
  simp only [List.append_assoc]

theorem set_within {k : ℕ} (h : k < mid.length) (v : α) :
    (pre ++ mid ++ post).set (pre.length + k) v = pre ++ mid.set k v ++ post := by
  rw [List.append_assoc, List.set_append_right _ _ (Nat.le_add_right _ _), Nat.add_sub_cancel_left,
    List.set_append_left _ _ h, List.append_assoc]

theorem length_foldl_set (n : ℕ) (place : ℕ → ℕ) (f : ℕ → α) :
    ((List.range n).foldl (fun b i => b.set (place i) (f i)) buf).length = buf.length := by
  induction n with
  | zero => rfl
  | succ n ih =>
      rw [List.range_succ, List.foldl_append, List.foldl_cons, List.foldl_nil, List.length_set, ih]

/-- A loop of writes inside `mid`. -/
theorem foldl_set_within {n : ℕ} {place inner : ℕ → ℕ} (f : ℕ → α)
    (h : ∀ i < n, inner i < mid.length ∧ place i = pre.length + inner i) :
    (List.range n).foldl (fun b i => b.set (place i) (f i)) (pre ++ mid ++ post) =
      pre ++ (List.range n).foldl (fun b i => b.set (inner i) (f i)) mid ++ post := by
  induction n with
  | zero => rfl
  | succ n ih =>
      have hprefix := ih fun i hi => h i (Nat.lt_succ_of_lt hi)
      obtain ⟨hin, hplace⟩ := h n (Nat.lt_succ_self n)
      rw [List.range_succ, List.foldl_append, List.foldl_append, hprefix]
      simp only [List.foldl_cons, List.foldl_nil]
      rw [hplace]
      exact set_within (by rwa [length_foldl_set]) (f n)

theorem set_take_succ {m : ℕ} (h : m < buf.length) (v : α) :
    (buf.take (m + 1)).set m v = buf.take m ++ [v] := by
  have hlen : (buf.take m).length = m := List.length_take_of_le (Nat.le_of_lt h)
  rw [← List.take_append_getElem h, List.set_append_right _ _ (Nat.le_of_eq hlen), hlen,
    Nat.sub_self]
  rfl

/-- Filling a buffer from its back. -/
theorem foldl_set_back (f : ℕ → α) {last : ℕ} (hlast : buf.length = last + 1) (k : ℕ)
    (hk : k ≤ last + 1) :
    (List.range k).foldl (fun b i => b.set (last - i) (f i)) buf =
      buf.take (last + 1 - k) ++ ((List.range k).map f).reverse := by
  induction k with
  | zero => simp [← hlast]
  | succ k ih =>
      have hleft : last + 1 - k = last - k + 1 := by omega
      have hin : last - k < (buf.take (last - k + 1)).length := by
        rw [List.length_take]
        omega
      have hset : (buf.take (last - k + 1)).set (last - k) (f k) = buf.take (last - k) ++ [f k] :=
        set_take_succ (by omega) (f k)
      rw [List.range_succ, List.foldl_append, ih (by omega), List.foldl_cons, List.foldl_nil, hleft,
        List.set_append_left _ _ hin, hset, List.map_append, List.reverse_append,
        Nat.add_sub_add_right]
      simp only [List.map_cons, List.map_nil, List.reverse_singleton, List.append_assoc]

theorem length_flatMap_range {size : ℕ} {f : ℕ → List α} (h : ∀ i, (f i).length = size) (n : ℕ) :
    ((List.range n).flatMap f).length = n * size := by
  induction n with
  | zero => simp
  | succ n ih =>
      rw [List.range_succ, List.flatMap_append, List.flatMap_singleton, List.length_append, ih, h n,
        Nat.succ_mul]

/-- A loop that writes pieces of one size one after the other from the front. -/
theorem foldl_writeAt {size n : ℕ} {f : ℕ → List α} {write : List α → ℕ → List α}
    (hf : ∀ i, (f i).length = size) (hn : n * size ≤ buf.length)
    (hwrite : ∀ b i, b.length = buf.length → i < n → write b i = writeAt b (i * size) (f i)) :
    (List.range n).foldl write buf = (List.range n).flatMap f ++ buf.drop (n * size) := by
  induction n with
  | zero => simp
  | succ n ih =>
      have hsucc : (n + 1) * size = n * size + size := Nat.succ_mul n size
      have hfront : ((List.range n).flatMap f).length = n * size := length_flatMap_range hf n
      have hlen : ((List.range n).flatMap f ++ buf.drop (n * size)).length = buf.length := by
        rw [List.length_append, hfront, List.length_drop]
        omega
      have hlast : writeAt ((List.range n).flatMap f ++ buf.drop (n * size)) (n * size) (f n) =
          (List.range n).flatMap f ++ f n ++ buf.drop ((n + 1) * size) := by
        rw [writeAt, ← hfront, List.take_left, List.drop_length_add_append, List.drop_drop, hf n,
          hfront, hsucc]
      rw [List.range_succ, List.foldl_append,
        ih (by omega) fun b i hb hi => hwrite b i hb (Nat.lt_succ_of_lt hi), List.foldl_cons,
        List.foldl_nil, hwrite _ n hlen (Nat.lt_succ_self n), hlast, List.flatMap_append,
        List.flatMap_singleton]

theorem getD_flatMap {size : ℕ} {f : ℕ → List α} (h : ∀ i, (f i).length = size) {n i k : ℕ}
    (hi : i < n) (hk : k < size) (d : α) :
    ((List.range n).flatMap f).getD (i * size + k) d = (f i).getD k d := by
  induction n with
  | zero => omega
  | succ n ih =>
      have hfront : ((List.range n).flatMap f).length = n * size := length_flatMap_range h n
      rw [List.range_succ, List.flatMap_append, List.flatMap_singleton]
      rcases Nat.lt_or_ge i n with hin | hin
      · have hle : (i + 1) * size ≤ n * size := Nat.mul_le_mul_right size hin
        have hsucc : (i + 1) * size = i * size + size := Nat.succ_mul i size
        rw [List.getD_append _ _ _ _ (by omega), ih hin]
      · have heq : i = n := by omega
        rw [List.getD_append_right _ _ _ _ (by rw [hfront, heq]; omega), hfront, heq,
          Nat.add_sub_cancel_left]

/-- A loop that writes the elements from `a` on, over a buffer given element by element. -/
theorem foldl_set_map_range {n : ℕ} (f g : ℕ → α) (a k : ℕ) :
    (List.range' a k).foldl (fun b j => b.set j (g j)) ((List.range n).map f) =
      (List.range n).map fun j => if a ≤ j ∧ j < a + k then g j else f j := by
  induction k generalizing a f with
  | zero =>
      apply List.map_congr_left
      intro j _
      rw [if_neg (by omega)]
  | succ k ih =>
      have hset : ((List.range n).map f).set a (g a) =
          (List.range n).map fun j => if j = a then g j else f j := by
        apply List.ext_getElem (by simp)
        intro j h₁ h₂
        rw [List.getElem_set]
        by_cases hja : a = j
        · simp [hja]
        · simp [hja, Ne.symm hja]
      rw [List.range'_succ, List.foldl_cons, hset, ih]
      apply List.map_congr_left
      intro j _
      by_cases hja : j = a
      · simp [hja]
      · have hiff : a + 1 ≤ j ∧ j < a + 1 + k ↔ a ≤ j ∧ j < a + (k + 1) := by omega
        simp only [hiff, hja, if_false]

end Buffers
