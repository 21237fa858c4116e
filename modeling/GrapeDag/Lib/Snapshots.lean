/-
THE JOURNAL REFINES A STACK OF SNAPSHOTS.

The simplest transactional store there is keeps a copy of itself at every checkpoint. An undo
log is meant to behave like it without copying anything.
-/
import GrapeDag.Lib.Journal

namespace Journalled

open List

/-- A store that copies itself at every checkpoint. -/
structure Snapshots (ω : Type) where
  current : ω
  saved : List ω

namespace Snapshots

variable {ω : Type}

def write (f : ω → ω) (a : Snapshots ω) : Snapshots ω := { a with current := f a.current }

def checkpoint (a : Snapshots ω) : Snapshots ω := { a with saved := a.current :: a.saved }

/-- Forget the newest copy; `none` without one. -/
def commit (a : Snapshots ω) : Option (Snapshots ω) :=
  match a.saved with
  | [] => none
  | _ :: rest => some { a with saved := rest }

/-- Return to the newest copy; `none` without one. -/
def revert (a : Snapshots ω) : Option (Snapshots ω) :=
  match a.saved with
  | [] => none
  | o :: rest => some ⟨o, rest⟩

/-- Everything the stack holds satisfies `Φ`. -/
def All (Φ : ω → Prop) (a : Snapshots ω) : Prop := Φ a.current ∧ ∀ o ∈ a.saved, Φ o

variable {Φ : ω → Prop} {a a' : Snapshots ω}

lemma All.write (h : a.All Φ) {f : ω → ω} (hf : Φ (f a.current)) : (a.write f).All Φ := ⟨hf, h.2⟩

lemma All.checkpoint (h : a.All Φ) : a.checkpoint.All Φ := by
  refine ⟨h.1, fun o ho => ?_⟩
  rcases mem_cons.mp ho with rfl | ho
  · exact h.1
  · exact h.2 o ho

lemma All.commit (h : a.All Φ) (hc : a.commit = some a') : a'.All Φ := by
  unfold Snapshots.commit at hc
  cases hs : a.saved with
  | nil => simp [hs] at hc
  | cons o rest =>
    simp only [hs, Option.some.injEq] at hc
    subst hc
    exact ⟨h.1, fun o' ho' => h.2 o' (by simp [hs, ho'])⟩

lemma All.revert (h : a.All Φ) (hr : a.revert = some a') : a'.All Φ := by
  unfold Snapshots.revert at hr
  cases hs : a.saved with
  | nil => simp [hs] at hr
  | cons o rest =>
    simp only [hs, Option.some.injEq] at hr
    subst hr
    exact ⟨h.2 o (by simp [hs]), fun o' ho' => h.2 o' (by simp [hs, ho'])⟩

end Snapshots

namespace Journal

variable {σ μ ω : Type} {U : Undo σ μ ω}

/-- The journal stands for the stack. -/
structure Refines (U : Undo σ μ ω) (j : Journal σ μ) (a : Snapshots ω) : Prop where
  current : U.obs j.state = a.current
  saved : a.saved = j.marks.map (j.past U)
  bounded : ∀ c ∈ j.marks, c ≤ j.mods.length
  sorted : j.marks.Pairwise (· ≥ ·)

variable {j : Journal σ μ} {a a' : Snapshots ω}

lemma refines_start (s : σ) : Refines U ⟨s, [], []⟩ ⟨U.obs s, []⟩ :=
  ⟨rfl, rfl, fun _ h => absurd h not_mem_nil, List.Pairwise.nil⟩

lemma refines_write (h : Refines U j a) {s : σ} {m : μ} {f : ω → ω}
    (hundo : U.obs (U.undo m s) = U.obs j.state) (hobs : U.obs s = f a.current) :
    Refines U (j.write s m) (a.write f) := by
  refine ⟨hobs, ?_, ?_, h.sorted⟩
  · show a.saved = j.marks.map ((j.write s m).past U)
    rw [h.saved]
    apply map_congr_left
    intro c hc
    exact (past_write U hundo (h.bounded c hc)).symm
  · intro c hc
    have hle := h.bounded c hc
    show c ≤ (m :: j.mods).length
    rw [length_cons]
    omega

lemma refines_checkpoint (h : Refines U j a) : Refines U j.checkpoint a.checkpoint := by
  refine ⟨h.current, ?_, ?_, ?_⟩
  · show a.current :: a.saved = j.past U j.mods.length :: j.marks.map (j.past U)
    rw [past_length, h.current, h.saved]
  · intro c hc
    rcases mem_cons.mp hc with rfl | hc
    · exact le_refl _
    · exact h.bounded c hc
  · exact pairwise_cons.mpr ⟨fun c hc => h.bounded c hc, h.sorted⟩

lemma refines_commit (h : Refines U j a) (hc : a.commit = some a') :
    ∃ j', j.commit = some j' ∧ Refines U j' a' := by
  have hsaved := h.saved
  unfold Snapshots.commit at hc
  unfold Journal.commit
  cases hm : j.marks with
  | nil => simp [hsaved, hm] at hc
  | cons c rest =>
    rw [hm, map_cons] at hsaved
    simp only [hsaved, Option.some.injEq] at hc
    subst hc
    have hsorted := h.sorted
    rw [hm] at hsorted
    refine ⟨{ j with marks := rest }, rfl, h.current, rfl, fun d hd => ?_, (pairwise_cons.mp hsorted).2⟩
    exact h.bounded d (by simp [hm, hd])

lemma refines_revert (h : Refines U j a) (hr : a.revert = some a') :
    ∃ j', j.revert U = some j' ∧ Refines U j' a' := by
  have hsaved := h.saved
  unfold Snapshots.revert at hr
  unfold Journal.revert
  cases hm : j.marks with
  | nil => simp [hsaved, hm] at hr
  | cons c rest =>
    rw [hm, map_cons] at hsaved
    simp only [hsaved, Option.some.injEq] at hr
    subst hr
    have hbound : c ≤ j.mods.length := h.bounded c (by simp [hm])
    have hsorted := h.sorted
    rw [hm] at hsorted
    obtain ⟨hhead, htail⟩ := pairwise_cons.mp hsorted
    refine ⟨_, if_pos hbound, rfl, ?_, ?_, htail⟩
    · -- rewinding further observes the same as before
      apply map_congr_left
      intro d hd
      exact (past_reverted hbound (hhead d hd)).symm
    · intro d hd
      have hlen : (j.mods.drop (j.mods.length - c)).length = c := by
        rw [length_drop]
        omega
      show d ≤ (j.mods.drop (j.mods.length - c)).length
      rw [hlen]
      exact hhead d hd

end Journal

end Journalled
