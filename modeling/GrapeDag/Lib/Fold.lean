/-
THE LAST WRITER WINS.

A left fold whose steps either write a cell or leave it alone ends with the value of the last
step that writes it.

Main result: `foldl_last_write`.
-/
import Mathlib.Data.List.Basic

namespace Folding

variable {α β γ : Type}

/-- What the last of the steps that write a cell writes to it. -/
def lastWrite (writes : α → Option γ) (steps : List α) : Option γ := steps.reverse.findSome? writes

@[simp] lemma lastWrite_cons (writes : α → Option γ) (d : α) (steps : List α) :
    lastWrite writes (d :: steps) = (lastWrite writes steps).or (writes d) := by
  simp [lastWrite, List.findSome?_append]

lemma lastWrite_map {δ : Type} (writes : α → Option γ) (g : γ → δ) (steps : List α) :
    lastWrite (fun d => (writes d).map g) steps = (lastWrite writes steps).map g := by
  induction steps with
  | nil => rfl
  | cons d steps ih =>
    rw [lastWrite_cons, lastWrite_cons, ih]
    cases lastWrite writes steps <;> rfl

variable {writes : α → Option γ}

/-- THE LAST WRITER WINS, as long as the invariant `P` of the fold holds. -/
theorem foldl_last_write {step : β → α → β} (P : β → Prop) (cell : β → γ)
    (hP : ∀ o d, P o → P (step o d))
    (hcell : ∀ o d, P o → cell (step o d) = (writes d).getD (cell o)) (steps : List α) :
    ∀ o, P o → P (steps.foldl step o) ∧
      cell (steps.foldl step o) = (lastWrite writes steps).getD (cell o) := by
  induction steps with
  | nil => intro o ho; exact ⟨ho, rfl⟩
  | cons d steps ih =>
    intro o ho
    obtain ⟨hkept, hlast⟩ := ih (step o d) (hP o d ho)
    refine ⟨hkept, ?_⟩
    rw [List.foldl_cons, hlast, hcell o d ho, lastWrite_cons]
    cases lastWrite writes steps <;> rfl

/-- The last writer wins in a fold that needs no invariant. -/
lemma foldl_writes {step : β → α → β} (cell : β → γ)
    (hcell : ∀ o d, cell (step o d) = (writes d).getD (cell o)) (steps : List α) (o : β) :
    cell (steps.foldl step o) = (lastWrite writes steps).getD (cell o) :=
  (foldl_last_write (fun _ => True) cell (fun _ _ h => h) (fun o d _ => hcell o d) steps o trivial).2

variable {steps : List α}

lemma lastWrite_eq_none : lastWrite writes steps = none ↔ ∀ d ∈ steps, writes d = none := by
  simp [lastWrite]

lemma exists_of_lastWrite {v : γ}
    (h : lastWrite writes steps = some v) : ∃ d ∈ steps, writes d = some v := by
  obtain ⟨d, hmem, hd⟩ := List.exists_of_findSome?_eq_some h
  exact ⟨d, List.mem_reverse.mp hmem, hd⟩

/-- Steps that write nothing but `cell`, and write it if it is set, write it last. -/
lemma lastWrite_eq {cell : Option γ} (hagree : ∀ d ∈ steps, ∀ v, writes d = some v → cell = some v)
    (hmem : ∀ v, cell = some v → ∃ d ∈ steps, writes d = some v) :
    lastWrite writes steps = cell := by
  cases hlast : lastWrite writes steps with
  | none =>
    refine (Option.eq_none_iff_forall_ne_some.mpr fun v hv => ?_).symm
    obtain ⟨d, hd, hwrites⟩ := hmem v hv
    rw [lastWrite_eq_none.mp hlast d hd] at hwrites
    cases hwrites
  | some v =>
    obtain ⟨d, hd, hv⟩ := exists_of_lastWrite hlast
    exact (hagree d hd v hv).symm

end Folding
