/-
AREAS OF AN ARRAY.

Arrays over any type with a value that stands for what was never written: filling up (`extend`),
reading a window, and writing over one (`overwrite`).
-/
import Mathlib.Data.List.Basic

namespace Area

open List

variable {α : Type*} {d : α} {xs ys : List α} {i n o : Nat}

/-- Fill up with `d` to at least `n` elements. -/
def extend (d : α) (n : Nat) (xs : List α) : List α := xs ++ List.replicate (n - xs.length) d

/-- The `n` elements from position `o` on, as far as there are any. -/
def window (o n : Nat) (xs : List α) : List α := (xs.drop o).take n

/-- Put `ys` in the place of the elements from position `o` on. -/
def overwrite (o : Nat) (ys xs : List α) : List α := xs.take o ++ ys ++ xs.drop (o + ys.length)

/-! ## Filling up -/

@[simp] lemma length_extend : (extend d n xs).length = max xs.length n := by
  unfold extend
  rw [length_append, length_replicate]
  omega

lemma extend_of_le (h : n ≤ xs.length) : extend d n xs = xs := by
  unfold extend
  rw [Nat.sub_eq_zero_of_le h, replicate_zero, append_nil]

lemma getD_extend : (extend d n xs).getD i d = xs.getD i d := by
  unfold extend
  rw [getD_eq_getElem?_getD, getD_eq_getElem?_getD]
  by_cases hi : i < xs.length
  · rw [getElem?_append_left hi]
  · rw [getElem?_append_right (by omega), getElem?_replicate, getElem?_eq_none (by omega)]
    split <;> rfl

/-! ## Windows -/

@[simp] lemma length_window : (window o n xs).length = min n (xs.length - o) := by
  unfold window
  rw [length_take, length_drop]

lemma getElem?_window (h : i < n) : (window o n xs)[i]? = xs[o + i]? := by
  unfold window
  rw [getElem?_take_of_lt h, getElem?_drop]

lemma length_window_of_le (h : o + n ≤ xs.length) : (window o n xs).length = n := by
  rw [length_window]
  omega

lemma window_eq_map (d : α) (h : o + n ≤ xs.length) :
    window o n xs = (range n).map fun i => xs.getD (o + i) d := by
  refine ext_getElem? fun i => ?_
  by_cases hi : i < n
  · rw [getElem?_window hi, getElem?_map, getElem?_range hi, Option.map_some, getD_eq_getElem?_getD,
      getElem?_eq_getElem (by omega), Option.getD_some]
  · rw [getElem?_eq_none (by simp; omega), getElem?_eq_none (by simp; omega)]

/-- A window of a filled-up array: what there is, and then the filler. -/
theorem window_extend :
    window o n (extend d (o + n) xs) = window o n xs ++ replicate (n - (xs.length - o)) d := by
  unfold window extend
  rw [drop_append, take_append, drop_replicate, take_replicate, length_drop]
  congr 2
  omega

lemma window_extend_of_ge (h : xs.length ≤ o) : window o n (extend d (o + n) xs) = replicate n d := by
  rw [window_extend]
  unfold window
  rw [drop_eq_nil_of_le h, take_nil, Nat.sub_eq_zero_of_le h]
  rfl

/-! ## Writing -/

lemma length_overwrite (h : o + ys.length ≤ xs.length) : (overwrite o ys xs).length = xs.length := by
  unfold overwrite
  rw [length_append, length_append, length_take, length_drop]
  omega

lemma window_overwrite (h : o ≤ xs.length) : window o ys.length (overwrite o ys xs) = ys := by
  unfold window overwrite
  have htake : (xs.take o).length = o := by
    rw [length_take]
    omega
  rw [append_assoc, drop_left' htake, take_left]

theorem getElem?_overwrite (hlen : o + ys.length ≤ xs.length) (hi : i < o ∨ o + ys.length ≤ i) :
    (overwrite o ys xs)[i]? = xs[i]? := by
  unfold overwrite
  have htake : (xs.take o).length = o := by
    rw [length_take]
    omega
  rcases hi with hbefore | hafter
  · rw [append_assoc, getElem?_append_left (by omega), getElem?_take_of_lt hbefore]
  · rw [getElem?_append_right (by rw [length_append]; omega), length_append, getElem?_drop]
    congr 1
    omega

end Area
