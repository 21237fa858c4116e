/-
AN UNDO LOG WITH NESTED CHECKPOINTS.

A state, the list of modifications made to it (newest first, each knowing how to undo itself)
and a stack of marks, each the length the log had at a checkpoint. Committing forgets the
newest mark; reverting undoes everything above it.

What is OBSERVED of a state is a function `obs`; undoing need only restore the observation, not
the representation.

Main result: `revert_restores`.
-/
import Mathlib.Data.List.Basic
import Mathlib.Order.Nat
import Mathlib.Tactic.Common

namespace Journalled

open List

/-- How a modification is undone and what of the state is observed. -/
structure Undo (σ μ ω : Type) where
  undo : μ → σ → σ
  obs : σ → ω
  /-- undoing sees only the observation -/
  undo_congr : ∀ {m s s'}, obs s = obs s' → obs (undo m s) = obs (undo m s')

/-- A state with its undo log and its marks, both newest first. -/
structure Journal (σ μ : Type) where
  state : σ
  mods : List μ
  marks : List Nat

variable {σ μ ω : Type} (U : Undo σ μ ω)

namespace Undo

def undoAll (ms : List μ) (s : σ) : σ := ms.foldl (fun s m => U.undo m s) s

@[simp] lemma undoAll_nil (s : σ) : U.undoAll [] s = s := rfl

@[simp] lemma undoAll_cons (m : μ) (ms : List μ) (s : σ) :
    U.undoAll (m :: ms) s = U.undoAll ms (U.undo m s) := rfl

lemma undoAll_append (ms ns : List μ) (s : σ) :
    U.undoAll (ms ++ ns) s = U.undoAll ns (U.undoAll ms s) := foldl_append

lemma obs_undoAll_congr (ms : List μ) {s s' : σ} (h : U.obs s = U.obs s') :
    U.obs (U.undoAll ms s) = U.obs (U.undoAll ms s') := by
  induction ms generalizing s s' with
  | nil => exact h
  | cons m ms ih => exact ih (U.undo_congr h)

end Undo

namespace Journal

/-! ## The operations -/

def checkpoint (j : Journal σ μ) : Journal σ μ := { j with marks := j.mods.length :: j.marks }

/-- Forget the newest mark; `none` without one. -/
def commit (j : Journal σ μ) : Option (Journal σ μ) :=
  match j.marks with
  | [] => none
  | _ :: rest => some { j with marks := rest }

/-- Undo everything above the newest mark; `none` without one. -/
def revert (j : Journal σ μ) : Option (Journal σ μ) :=
  match j.marks with
  | [] => none
  | c :: rest =>
      if c ≤ j.mods.length then
        some { state := U.undoAll (j.mods.take (j.mods.length - c)) j.state
               mods := j.mods.drop (j.mods.length - c)
               marks := rest }
      else none

/-- Record a modification that produced the state `s`. -/
def write (j : Journal σ μ) (s : σ) (m : μ) : Journal σ μ := { j with state := s, mods := m :: j.mods }

/-! ## Looking back -/

/-- What rewinding the log to length `n` observes. -/
def past (j : Journal σ μ) (n : Nat) : ω := U.obs (U.undoAll (j.mods.take (j.mods.length - n)) j.state)

@[simp] lemma past_length (j : Journal σ μ) : j.past U j.mods.length = U.obs j.state := by
  simp [past]

lemma past_write {j : Journal σ μ} {s : σ} {m : μ}
    (h : U.obs (U.undo m s) = U.obs j.state) {n : Nat} (hn : n ≤ j.mods.length) :
    (j.write s m).past U n = j.past U n := by
  have hlen : (m :: j.mods).length - n = (j.mods.length - n) + 1 := by
    rw [length_cons]; omega
  show U.obs (U.undoAll ((m :: j.mods).take ((m :: j.mods).length - n)) s) = _
  rw [hlen]
  exact U.obs_undoAll_congr _ h

/-! ## Growing from an earlier journal -/

/-- `j'` is reached from `j` without undoing below it. -/
structure Grows (j j' : Journal σ μ) : Prop where
  length_le : j.mods.length ≤ j'.mods.length
  past_eq : ∀ n ≤ j.mods.length, j'.past U n = j.past U n
  marks_eq : ∃ extra, j'.marks = extra ++ j.marks ∧ extra.Pairwise (· ≥ ·) ∧
    ∀ c ∈ extra, j.mods.length ≤ c ∧ c ≤ j'.mods.length

variable {U} {j j1 j2 : Journal σ μ}

lemma Grows.refl (j : Journal σ μ) : Grows U j j :=
  ⟨le_refl _, fun _ _ => rfl, [], rfl, List.Pairwise.nil, fun _ h => absurd h not_mem_nil⟩

lemma Grows.trans (h1 : Grows U j j1) (h2 : Grows U j1 j2) : Grows U j j2 := by
  obtain ⟨e1, hm1, hp1, hb1⟩ := h1.marks_eq
  obtain ⟨e2, hm2, hp2, hb2⟩ := h2.marks_eq
  refine ⟨h1.length_le.trans h2.length_le, ?_, e2 ++ e1, ?_, ?_, ?_⟩
  · intro n hn
    rw [h2.past_eq n (hn.trans h1.length_le), h1.past_eq n hn]
  · rw [hm2, hm1, append_assoc]
  · refine pairwise_append.mpr ⟨hp2, hp1, fun a ha b hb => ?_⟩
    exact le_trans (hb1 b hb).2 (hb2 a ha).1
  · intro c hc
    rcases mem_append.mp hc with h | h
    · exact ⟨h1.length_le.trans (hb2 c h).1, (hb2 c h).2⟩
    · exact ⟨(hb1 c h).1, (hb1 c h).2.trans h2.length_le⟩

lemma grows_write {s : σ} {m : μ} (h : U.obs (U.undo m s) = U.obs j.state) : Grows U j (j.write s m) :=
  ⟨Nat.le_succ _, fun _ hn => past_write U h hn, [], rfl, List.Pairwise.nil,
    fun _ h => absurd h not_mem_nil⟩

lemma grows_checkpoint (j : Journal σ μ) : Grows U j j.checkpoint :=
  ⟨le_refl _, fun _ _ => rfl, [j.mods.length], rfl, pairwise_singleton _ _, by
    intro c hc
    rw [mem_singleton] at hc
    subst hc
    exact ⟨le_refl _, le_refl _⟩⟩

/-- The marks of a section opened by a checkpoint: its own mark is among them. -/
private lemma section_marks (h : Grows U j.checkpoint j1) :
    ∃ c rest, j1.marks = c :: rest ∧ j.mods.length ≤ c ∧ c ≤ j1.mods.length ∧
      ∃ extra, rest = extra ++ j.marks ∧ extra.Pairwise (· ≥ ·) ∧ ∀ d ∈ extra, j.mods.length ≤ d ∧ d ≤ c := by
  obtain ⟨e, hm, hp, hb⟩ := h.marks_eq
  cases e with
  | nil =>
    exact ⟨j.mods.length, j.marks, hm, le_refl _, h.length_le, [], rfl, List.Pairwise.nil,
      fun _ h => absurd h List.not_mem_nil⟩
  | cons c e =>
    obtain ⟨hhead, htail⟩ := List.pairwise_cons.mp hp
    have hc := hb c List.mem_cons_self
    refine ⟨c, e ++ j.mods.length :: j.marks, hm, hc.1, hc.2, e ++ [j.mods.length], by simp, ?_, ?_⟩
    · refine List.pairwise_append.mpr ⟨htail, List.pairwise_singleton _ _, ?_⟩
      intro a ha b hb'
      rw [List.mem_singleton] at hb'
      subst hb'
      exact (hb a (List.mem_cons_of_mem _ ha)).1
    · intro d hd
      rcases List.mem_append.mp hd with h' | h'
      · exact ⟨(hb d (List.mem_cons_of_mem _ h')).1, hhead d h'⟩
      · rw [List.mem_singleton] at h'
        subst h'
        exact ⟨le_refl _, hc.1⟩

/-- A committed section grows from its start, also with marks left open in it. -/
theorem grows_commit (h : Grows U j.checkpoint j1) (hc : j1.commit = some j2) : Grows U j j2 := by
  obtain ⟨c, rest, hm, _, _, extra, hr, hp, hb⟩ := section_marks h
  unfold commit at hc
  rw [hm] at hc
  obtain rfl := Option.some.inj hc
  refine ⟨h.length_le, h.past_eq, extra, hr, hp, fun d hd => ?_⟩
  exact ⟨(hb d hd).1, by
    show d ≤ j1.mods.length
    have := (hb d hd).2
    omega⟩

lemma past_reverted {c : Nat} (hc : c ≤ j1.mods.length) {rest : List Nat} {n : Nat} (hn : n ≤ c) :
    past U { state := U.undoAll (j1.mods.take (j1.mods.length - c)) j1.state
             mods := j1.mods.drop (j1.mods.length - c)
             marks := rest } n = past U j1 n := by
  have hlen : (j1.mods.drop (j1.mods.length - c)).length = c := by
    rw [length_drop]; omega
  show U.obs (U.undoAll ((j1.mods.drop _).take ((j1.mods.drop _).length - n)) _) = _
  rw [← Undo.undoAll_append, ← take_add]
  congr 3
  omega

/-- A reverted section grows from its start: whatever mark the revert found, it was set after
the section began. -/
theorem grows_revert (h : Grows U j.checkpoint j1) (hr : j1.revert U = some j2) : Grows U j j2 := by
  obtain ⟨c, rest, hm, hjc, hcl, extra, hrest, hp, hb⟩ := section_marks h
  unfold revert at hr
  rw [hm] at hr
  simp only [hcl, if_true] at hr
  obtain rfl := Option.some.inj hr
  have hlen : (j1.mods.drop (j1.mods.length - c)).length = c := by
    rw [length_drop]; omega
  refine ⟨by show _ ≤ (j1.mods.drop _).length; omega, ?_, extra, hrest, hp, fun d hd => ?_⟩
  · intro n hn
    rw [past_reverted hcl (hn.trans hjc)]
    exact h.past_eq n hn
  · exact ⟨(hb d hd).1, by show d ≤ (j1.mods.drop _).length; rw [hlen]; exact (hb d hd).2⟩

/-- Reverting a balanced section restores its start: the observation, the marks and everything
the log looked back to. -/
theorem revert_restores (h : Grows U j.checkpoint j1)
    (hbal : j1.marks = j.mods.length :: j.marks) (hr : j1.revert U = some j2) :
    U.obs j2.state = U.obs j.state ∧ j2.marks = j.marks ∧ j2.mods.length = j.mods.length := by
  have hcl : j.mods.length ≤ j1.mods.length := h.length_le
  unfold revert at hr
  rw [hbal] at hr
  simp only [hcl, if_true] at hr
  obtain rfl := Option.some.inj hr
  refine ⟨?_, rfl, ?_⟩
  · have hpast := h.past_eq j.mods.length (le_refl _)
    rw [show j.checkpoint.past U j.mods.length = U.obs j.state from past_length U j] at hpast
    exact hpast
  · show (j1.mods.drop _).length = _
    rw [length_drop]
    omega

/-! ## Properties that survive reverts -/

/-- `j'` remembers `j`, and `Φ` holds in it and at every mark set since `j`: wherever a revert may
lead, `Φ` holds there. -/
structure Upholds (U : Undo σ μ ω) (Φ : ω → Prop) (j j' : Journal σ μ) : Prop where
  grows : Grows U j j'
  now : Φ (U.obs j'.state)
  marks : ∀ extra, j'.marks = extra ++ j.marks → ∀ c ∈ extra, Φ (j'.past U c)

variable {Φ : ω → Prop}

lemma upholds_of_grows (h : Grows U j j1) (hm : j1.marks = j.marks)
    (hΦ : Φ (U.obs j1.state)) : Upholds U Φ j j1 := by
  refine ⟨h, hΦ, fun extra he => ?_⟩
  have hnil : extra = [] := append_left_eq_self.mp (he.symm.trans hm)
  rw [hnil]
  exact fun _ hc => absurd hc not_mem_nil

lemma upholds_checkpoint (hΦ : Φ (U.obs j.state)) : Upholds U Φ j j.checkpoint := by
  refine ⟨grows_checkpoint j, hΦ, fun extra he c hc => ?_⟩
  have hone : extra = [j.mods.length] := by
    have hcat : extra ++ j.marks = [j.mods.length] ++ j.marks := he.symm
    exact append_cancel_right hcat
  rw [hone, mem_singleton] at hc
  subst hc
  show Φ (j.past U j.mods.length)
  rw [past_length]
  exact hΦ

lemma Upholds.trans (h1 : Upholds U Φ j j1) (h2 : Upholds U Φ j1 j2) : Upholds U Φ j j2 := by
  refine ⟨h1.grows.trans h2.grows, h2.now, fun extra he c hc => ?_⟩
  obtain ⟨e1, hm1, _, hb1⟩ := h1.grows.marks_eq
  obtain ⟨e2, hm2, _, _⟩ := h2.grows.marks_eq
  have hsplit : extra = e2 ++ e1 := by
    have hcat : extra ++ j.marks = (e2 ++ e1) ++ j.marks := by
      rw [← he, hm2, hm1, append_assoc]
    exact append_cancel_right hcat
  rw [hsplit] at hc
  rcases mem_append.mp hc with h | h
  · exact h2.marks e2 hm2 c h
  · rw [h2.grows.past_eq c (hb1 c h).2]
    exact h1.marks e1 hm1 c h

/-- In a section, every mark that a commit or revert can find upholds `Φ`. -/
private lemma section_upholds (h : Upholds U Φ j.checkpoint j1) (hΦ : Φ (U.obs j.state))
    {extra : List Nat} (he : j1.marks = extra ++ j.marks) {c : Nat} (hc : c ∈ extra) :
    Φ (j1.past U c) := by
  obtain ⟨e, hm, _, _⟩ := h.grows.marks_eq
  have hsplit : extra = e ++ [j.mods.length] := by
    have hcat : extra ++ j.marks = (e ++ [j.mods.length]) ++ j.marks := by
      rw [← he, hm, List.append_assoc]
      rfl
    exact List.append_cancel_right hcat
  rw [hsplit] at hc
  rcases List.mem_append.mp hc with h' | h'
  · exact h.marks e hm c h'
  -- the mark of the section itself
  rw [List.mem_singleton] at h'
  subst h'
  rw [h.grows.past_eq j.mods.length (le_refl _)]
  show Φ (j.past U j.mods.length)
  rw [past_length]
  exact hΦ

lemma upholds_commit (h : Upholds U Φ j.checkpoint j1) (hΦ : Φ (U.obs j.state))
    (hc : j1.commit = some j2) : Upholds U Φ j j2 := by
  have hgrows := grows_commit h.grows hc
  obtain ⟨c, rest, hm, _⟩ := section_marks h.grows
  unfold commit at hc
  rw [hm] at hc
  obtain rfl := Option.some.inj hc
  refine ⟨hgrows, h.now, fun extra he d hd => ?_⟩
  have he' : j1.marks = (c :: extra) ++ j.marks := by
    rw [hm, show rest = extra ++ j.marks from he]
    rfl
  exact section_upholds h hΦ he' (mem_cons_of_mem c hd)

lemma upholds_revert (h : Upholds U Φ j.checkpoint j1) (hΦ : Φ (U.obs j.state))
    (hr : j1.revert U = some j2) : Upholds U Φ j j2 := by
  have hgrows := grows_revert h.grows hr
  obtain ⟨c, rest, hm, _, hcl, extra0, hrest, _, hb⟩ := section_marks h.grows
  unfold revert at hr
  rw [hm] at hr
  simp only [hcl, if_true] at hr
  obtain rfl := Option.some.inj hr
  have hall : ∀ d ∈ c :: extra0, Φ (j1.past U d) := by
    intro d hd
    refine section_upholds h hΦ ?_ hd
    rw [hm, hrest]
    rfl
  refine ⟨hgrows, hall c mem_cons_self, fun extra he d hd => ?_⟩
  have hextra : extra = extra0 := append_cancel_right (he.symm.trans hrest)
  rw [hextra] at hd
  rw [past_reverted hcl (hb d hd).2]
  exact hall d (mem_cons_of_mem c hd)

end Journal

end Journalled
