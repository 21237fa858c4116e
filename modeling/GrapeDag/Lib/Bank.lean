/-
MOVING MONEY BETWEEN ACCOUNTS.

The abstract bank: a balance for each of finitely many accounts, and one operation, `move`.
-/
import Mathlib.Algebra.BigOperators.Group.Finset.Basic
import Mathlib.Algebra.BigOperators.Group.Finset.Piecewise
import Mathlib.Data.Fintype.Basic
import Mathlib.Tactic.Ring

namespace Bank

variable {κ : Type} [DecidableEq κ]

/-- Take `x` from `s` and give it to `r`. -/
def move (b : κ → Int) (s r : κ) (x : Int) : κ → Int := fun w =>
  b w - (if w = s then x else 0) + (if w = r then x else 0)

lemma move_apply (b : κ → Int) (s r : κ) (x : Int) (w : κ) :
    move b s r x w = b w - (if w = s then x else 0) + (if w = r then x else 0) := rfl

@[simp] lemma move_self (b : κ → Int) (s : κ) (x : Int) : move b s s x = b := by
  funext w
  simp [move]

theorem sum_move [Fintype κ] (b : κ → Int) (s r : κ) (x : Int) : ∑ w, move b s r x w = ∑ w, b w := by
  simp only [move, Finset.sum_add_distrib, Finset.sum_sub_distrib]
  simp

lemma move_nonneg {b : κ → Int} {s r : κ} {x : Int} (hb : ∀ w, 0 ≤ b w) (hx : 0 ≤ x)
    (hcovered : x ≤ b s) (w : κ) : 0 ≤ move b s r x w := by
  have hw := hb w
  rw [move_apply]
  by_cases hs : w = s
  · -- what the payer pays is covered by its balance
    rw [← hs] at hcovered
    split <;> omega
  · rw [if_neg hs]
    split <;> omega

end Bank
