/-
PAGES OF A LIST.

A page is what `limit` leaves of the list behind `offset`.
-/
import Mathlib.Data.List.Basic
import Mathlib.Tactic.Common

namespace Pages

variable {α : Type}

/-- The elements behind `offset`, at most `limit` of them. -/
def page (limit offset : Nat) (l : List α) : List α :=
  if l.length ≤ offset then []
  else if (l.drop offset).length < limit then l.drop offset
  else (l.drop offset).take limit

lemma page_eq (limit offset : Nat) (l : List α) : page limit offset l = (l.drop offset).take limit := by
  unfold page
  split
  · rw [List.drop_of_length_le ‹_›, List.take_nil]
  · split
    · rw [List.take_of_length_le (by omega)]
    · rfl

/-- The first `n` pages, the page `k` of the list `order k`. -/
def pages (limit : Nat) (order : Nat → List α) (n : Nat) : List α :=
  (List.range n).flatMap fun k => page limit (k * limit) (order k)

lemma pages_succ (limit : Nat) (order : Nat → List α) (n : Nat) :
    pages limit order (n + 1) = pages limit order n ++ page limit (n * limit) (order n) := by
  simp [pages, List.range_succ]

lemma take_succ_page (limit n : Nat) (l : List α) :
    l.take ((n + 1) * limit) = l.take (n * limit) ++ page limit (n * limit) l := by
  rw [page_eq, Nat.add_mul, Nat.one_mul, List.take_add]

lemma pages_const (limit : Nat) (l : List α) (n : Nat) :
    pages limit (fun _ => l) n = l.take (n * limit) := by
  induction n with
  | zero => simp [pages]
  | succ n ih => rw [pages_succ, take_succ_page, ih]

end Pages
