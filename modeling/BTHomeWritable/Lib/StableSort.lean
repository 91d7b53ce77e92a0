import Mathlib.Data.List.Perm.Basic
import Mathlib.Order.Lattice

/-!
# Stable insertion sort

`sort key` inserts each item from the end of what is sorted so far, past the
items with a strictly greater key.  The result is the items in ascending order
of `key`, those with one key in the order they came in.
-/

namespace StableSort

variable {α β κ : Type*} [LinearOrder κ] (key : α → κ)

/-- `x` moved down from the top of the sorted list, which is given in reverse. -/
def shiftIn (x : α) : List α → List α
  | [] => [x]
  | y :: below => if key x < key y then y :: shiftIn x below else x :: y :: below

def sort (items : List α) : List α := (items.foldl (fun s x => shiftIn key x s) []).reverse

/-- `ys` is `xs` in ascending order, items with one key in the order of `xs`. -/
structure IsStableSort (xs ys : List α) : Prop where
  ascending : ys.Pairwise fun a b => key a ≤ key b
  stable : ∀ k, ys.filter (key · = k) = xs.filter (key · = k)

variable {key}

theorem filter_shiftIn (x : α) (s : List α) (k : κ) :
    (shiftIn key x s).filter (key · = k) = (x :: s).filter (key · = k) := by
  induction s with
  | nil => rfl
  | cons y below ih =>
      unfold shiftIn
      by_cases hlt : key x < key y
      · rw [if_pos hlt]
        by_cases hy : key y = k
        · -- `x` moves past `y`, so the two are not of one key
          have hx : key x ≠ k := by
            intro hx
            exact absurd hlt (by rw [hx, hy]; exact lt_irrefl k)
          simp [ih, hy, hx]
        · simp [List.filter_cons, ih, hy]
      · rw [if_neg hlt]

theorem mem_shiftIn {x a : α} {s : List α} : a ∈ shiftIn key x s ↔ a = x ∨ a ∈ s := by
  induction s with
  | nil => simp [shiftIn]
  | cons y below ih =>
      unfold shiftIn
      by_cases hlt : key x < key y
      · rw [if_pos hlt, List.mem_cons, ih, List.mem_cons]
        exact or_left_comm
      · rw [if_neg hlt, List.mem_cons]

theorem descending_shiftIn {x : α} {s : List α} (h : s.Pairwise fun a b => key b ≤ key a) :
    (shiftIn key x s).Pairwise fun a b => key b ≤ key a := by
  induction s with
  | nil => simp [shiftIn]
  | cons y below ih =>
      obtain ⟨hy, hbelow⟩ := List.pairwise_cons.mp h
      unfold shiftIn
      by_cases hlt : key x < key y
      · rw [if_pos hlt, List.pairwise_cons]
        refine ⟨?_, ih hbelow⟩
        intro a ha
        rcases mem_shiftIn.mp ha with rfl | ha
        · exact hlt.le
        · exact hy a ha
      · rw [if_neg hlt, List.pairwise_cons]
        refine ⟨?_, h⟩
        intro a ha
        rcases List.mem_cons.mp ha with rfl | ha
        · exact not_lt.mp hlt
        · exact (hy a ha).trans (not_lt.mp hlt)

theorem isStableSort_sort (items : List α) : IsStableSort key items (sort key items) := by
  -- the accumulator is the sorted list in reverse, and may start with anything sorted
  have hfold : ∀ (items s : List α), (s.Pairwise fun a b => key b ≤ key a) →
      ((items.foldl (fun s x => shiftIn key x s) s).Pairwise fun a b => key b ≤ key a) ∧
        ∀ k, (items.foldl (fun s x => shiftIn key x s) s).filter (key · = k) =
          (items.reverse ++ s).filter (key · = k) := by
    intro items
    induction items with
    | nil => exact fun s hs => ⟨hs, fun k => rfl⟩
    | cons x rest ih =>
        intro s hs
        obtain ⟨hsorted, hfilter⟩ := ih (shiftIn key x s) (descending_shiftIn hs)
        refine ⟨hsorted, fun k => ?_⟩
        calc (rest.foldl (fun s x => shiftIn key x s) (shiftIn key x s)).filter (key · = k)
            = (rest.reverse ++ shiftIn key x s).filter (key · = k) := hfilter k
          _ = (rest.reverse ++ x :: s).filter (key · = k) := by
              rw [List.filter_append, filter_shiftIn, ← List.filter_append]
          _ = ((x :: rest).reverse ++ s).filter (key · = k) := by
              rw [List.reverse_cons, List.append_assoc, List.singleton_append]
  obtain ⟨hsorted, hfilter⟩ := hfold items [] List.Pairwise.nil
  refine ⟨List.pairwise_reverse.mpr hsorted, fun k => ?_⟩
  rw [sort, List.filter_reverse, hfilter k, List.append_nil, List.filter_reverse,
    List.reverse_reverse]

theorem IsStableSort.perm {xs ys : List α} (h : IsStableSort key xs ys) : ys.Perm xs := by
  classical
  rw [List.perm_iff_count]
  intro a
  -- an item is counted among those of its own key, which are the same on both sides
  have hcount : ∀ l : List α, (l.filter (key · = key a)).count a = l.count a := by
    intro l
    exact List.count_filter (by simp)
  calc ys.count a = (ys.filter (key · = key a)).count a := (hcount ys).symm
    _ = (xs.filter (key · = key a)).count a := by rw [h.stable]
    _ = xs.count a := hcount xs

/-- An item that nothing has to come before stays in front. -/
theorem IsStableSort.head? {x : α} {rest ys : List α} (h : IsStableSort key (x :: rest) ys)
    (hleast : ∀ y ∈ rest, key x ≤ key y) : ys.head? = some x := by
  have hx : x ∈ ys := h.perm.mem_iff.mpr (List.mem_cons_self ..)
  cases ys with
  | nil => cases hx
  | cons y below =>
      have hle : key y ≤ key x := by
        rcases List.mem_cons.mp hx with rfl | hbelow
        · exact le_rfl
        · exact (List.pairwise_cons.mp h.ascending).1 x hbelow
      have hge : key x ≤ key y := by
        rcases List.mem_cons.mp (h.perm.mem_iff.mp (List.mem_cons_self ..)) with rfl | hrest
        · exact le_rfl
        · exact hleast y hrest
      have hfirst := h.stable (key x)
      rw [List.filter_cons_of_pos (by simp [le_antisymm hle hge]),
        List.filter_cons_of_pos (by simp)] at hfirst
      rw [List.head?_cons, (List.cons.inj hfirst).1]

/-- Sorting does not look at anything but the keys. -/
theorem IsStableSort.map {key' : β → κ} {f : α → β} {xs ys : List α}
    (h : IsStableSort key xs ys) (hkey : ∀ x, key' (f x) = key x) :
    IsStableSort key' (xs.map f) (ys.map f) where
  ascending := by
    rw [List.pairwise_map]
    simpa only [hkey] using h.ascending
  stable k := by
    have hcomp : ((fun b => decide (key' b = k)) ∘ f) = fun a => decide (key a = k) := by
      funext a
      simp [hkey]
    rw [List.filter_map, List.filter_map, hcomp, h.stable k]

/-- Items with one key keep whatever relation the list had between its items. -/
theorem IsStableSort.pairwise {R : α → α → Prop} {xs ys : List α} (h : IsStableSort key xs ys)
    (hxs : xs.Pairwise R) : ys.Pairwise fun a b => key a < key b ∨ (key a = key b ∧ R a b) := by
  rw [List.pairwise_iff_forall_sublist] at hxs ⊢
  intro a b hab
  have hle : key a ≤ key b := List.pairwise_iff_forall_sublist.mp h.ascending hab
  rcases hle.lt_or_eq with hlt | heq
  · exact Or.inl hlt
  · have hsub := hab.filter (key · = key b)
    rw [h.stable] at hsub
    have hpair : [a, b].filter (key · = key b) = [a, b] := by simp [heq]
    rw [hpair] at hsub
    exact Or.inr ⟨heq, hxs (hsub.trans List.filter_sublist)⟩

end StableSort
