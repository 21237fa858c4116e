/-
PUTTING A CHAIN TOGETHER FROM ITS LINKS.

The links `0, 1, …` of a chain arrive in any order and possibly again. A link is put right
before its successor if that is there already, and at the end otherwise; the first link is
dropped where it can be put neither before its successor nor into an empty list. Elements never
change their order once they are in the list, so no later arrival repairs a link at a wrong
place.

Main result: `assemble_iff`.
-/
import Mathlib.Data.List.FinRange
import Mathlib.Data.List.Induction
import Mathlib.Data.List.Sort
import Mathlib.Tactic.Common

namespace Assembly

open List

variable {α β : Type}

/-! ## Inserting before an element -/

/-- Put `a` before the first element that passes the test, if there is one. -/
def insertBefore (test : α → Bool) (a : α) : List α → Option (List α)
  | [] => none
  | x :: xs => if test x then some (a :: x :: xs) else (insertBefore test a xs).map (x :: ·)

variable {test : α → Bool} {a : α} {l l' : List α}

lemma insertBefore_eq_none : insertBefore test a l = none ↔ ∀ x ∈ l, test x = false := by
  induction l with
  | nil => simp [insertBefore]
  | cons x xs ih =>
    cases hx : test x with
    | true => simp [insertBefore, hx]
    | false => simp [insertBefore, hx, ih]

lemma insertBefore_eq_some :
    insertBefore test a l = some l' ↔
      ∃ pre x post, l = pre ++ x :: post ∧ l' = pre ++ a :: x :: post ∧ test x = true ∧
        ∀ y ∈ pre, test y = false := by
  induction l generalizing l' with
  | nil => simp [insertBefore]
  | cons z zs ih =>
    cases hz : test z with
    | true =>
      simp only [insertBefore, hz, if_true, Option.some.injEq]
      constructor
      · rintro rfl
        exact ⟨[], z, zs, rfl, rfl, hz, by simp⟩
      rintro ⟨pre, x, post, hl, rfl, hx, hpre⟩
      cases pre with
      | nil =>
        obtain ⟨rfl, rfl⟩ := cons.inj hl
        rfl
      | cons y ys =>
        obtain ⟨rfl, -⟩ := cons.inj hl
        have := hpre z (by simp)
        rw [hz] at this
        cases this
    | false =>
      simp only [insertBefore, hz, Bool.false_eq_true, if_false, Option.map_eq_some_iff]
      constructor
      · rintro ⟨l1, hl1, rfl⟩
        obtain ⟨pre, x, post, rfl, rfl, hx, hpre⟩ := ih.mp hl1
        refine ⟨z :: pre, x, post, rfl, rfl, hx, ?_⟩
        intro y hy
        rcases mem_cons.mp hy with rfl | hy
        · exact hz
        · exact hpre y hy
      · rintro ⟨pre, x, post, hl, rfl, hx, hpre⟩
        cases pre with
        | nil =>
          obtain ⟨rfl, -⟩ := cons.inj hl
          rw [hz] at hx
          cases hx
        | cons y ys =>
          obtain ⟨rfl, rfl⟩ := cons.inj hl
          refine ⟨ys ++ a :: x :: post, ih.mpr ⟨ys, x, post, rfl, rfl, hx, ?_⟩, rfl⟩
          exact fun y' hy' => hpre y' (mem_cons_of_mem z hy')

lemma perm_insertBefore (h : insertBefore test a l = some l') : l'.Perm (a :: l) := by
  obtain ⟨pre, x, post, rfl, rfl, -, -⟩ := insertBefore_eq_some.mp h
  exact perm_middle

lemma mem_insertBefore (h : insertBefore test a l = some l') (y : α) : y ∈ l' ↔ y = a ∨ y ∈ l :=
  (perm_insertBefore h).mem_iff.trans mem_cons

lemma sublist_insertBefore (h : insertBefore test a l = some l') : l.Sublist l' := by
  obtain ⟨pre, x, post, rfl, rfl, -, -⟩ := insertBefore_eq_some.mp h
  exact List.Sublist.append_left (sublist_cons_self a _) pre

lemma insertBefore_map {test' : β → Bool} {f : α → β} (h : ∀ x ∈ l, test' (f x) = test x) :
    insertBefore test' (f a) (l.map f) = (insertBefore test a l).map (map f) := by
  induction l with
  | nil => rfl
  | cons x xs ih =>
    have hx := h x (by simp)
    have hxs := ih fun y hy => h y (mem_cons_of_mem x hy)
    cases ht : test x with
    | true => simp [insertBefore, hx, ht]
    | false =>
      simp only [map_cons, insertBefore, hx, ht, Bool.false_eq_true, if_false, hxs, Option.map_map]
      rfl

/-! ## Placing the links as they arrive -/

variable {n : Nat}

/-- What the arrival of link `i` makes of the list `P` put together so far. -/
def place (i : Fin n) (P : List (Fin n)) : List (Fin n) :=
  if i ∈ P then P
  else (insertBefore (fun j : Fin n => decide (j.val = i.val + 1)) i P).getD
    (if i.val = 0 ∧ P ≠ [] then P else P ++ [i])

def assemble (A : List (Fin n)) : List (Fin n) := A.foldl (fun P i => place i P) []

variable {A P Q : List (Fin n)} {i j : Fin n}

@[simp] lemma assemble_concat (A : List (Fin n)) (i : Fin n) :
    assemble (A ++ [i]) = place i (assemble A) := by
  simp [assemble, foldl_append]

lemma place_of_mem (h : i ∈ P) : place i P = P := if_pos h

lemma place_of_insert (h : i ∉ P)
    (hq : insertBefore (fun j : Fin n => decide (j.val = i.val + 1)) i P = some Q) :
    place i P = Q := by
  rw [place, if_neg h, hq, Option.getD_some]

lemma place_of_lone (h : i ∉ P) (hs : ∀ j ∈ P, j.val ≠ i.val + 1) :
    place i P = if i.val = 0 ∧ P ≠ [] then P else P ++ [i] := by
  have hnone : insertBefore (fun j : Fin n => decide (j.val = i.val + 1)) i P = none :=
    insertBefore_eq_none.mpr fun j hj => decide_eq_false (hs j hj)
  rw [place, if_neg h, hnone, Option.getD_none]

lemma insertBefore_successor (i : Fin n) (P : List (Fin n)) :
    (∃ Q, insertBefore (fun j : Fin n => decide (j.val = i.val + 1)) i P = some Q ∧
      ∃ j ∈ P, j.val = i.val + 1) ∨ ∀ j ∈ P, j.val ≠ i.val + 1 := by
  cases hq : insertBefore (fun j : Fin n => decide (j.val = i.val + 1)) i P with
  | none =>
    right
    intro j hj
    exact of_decide_eq_false (insertBefore_eq_none.mp hq j hj)
  | some Q =>
    left
    obtain ⟨pre, x, post, rfl, -, hx, -⟩ := insertBefore_eq_some.mp hq
    exact ⟨Q, rfl, x, by simp, of_decide_eq_true hx⟩

lemma sublist_place (i : Fin n) (P : List (Fin n)) : P.Sublist (place i P) := by
  by_cases hi : i ∈ P
  · rw [place_of_mem hi]
  rcases insertBefore_successor i P with ⟨Q, hq, -⟩ | hs
  · rw [place_of_insert hi hq]
    exact sublist_insertBefore hq
  · rw [place_of_lone hi hs]
    split
    · exact List.Sublist.refl P
    · exact sublist_append_left P [i]

lemma eq_or_mem_of_mem_place (h : j ∈ place i P) : j = i ∨ j ∈ P := by
  by_cases hi : i ∈ P
  · rw [place_of_mem hi] at h
    exact Or.inr h
  rcases insertBefore_successor i P with ⟨Q, hq, -⟩ | hs
  · rw [place_of_insert hi hq] at h
    exact (mem_insertBefore hq j).mp h
  · rw [place_of_lone hi hs] at h
    split at h
    · exact Or.inr h
    · simpa [or_comm] using h

lemma mem_place_self : i ∈ place i P ↔ i.val ≠ 0 ∨ i ∈ P ∨ P = [] ∨ ∃ j ∈ P, j.val = i.val + 1 := by
  by_cases hi : i ∈ P
  · simp [place_of_mem hi, hi]
  rcases insertBefore_successor i P with ⟨Q, hq, hs⟩ | hs
  · rw [place_of_insert hi hq]
    simp [mem_insertBefore hq, hs]
  rw [place_of_lone hi hs]
  by_cases h0 : i.val = 0 ∧ P ≠ []
  · rw [if_pos h0]
    tauto
  · simp only [if_neg h0, mem_append, mem_singleton, or_true, true_iff]
    tauto

/-! ## Whole runs -/

lemma mem_of_mem_assemble (h : i ∈ assemble A) : i ∈ A := by
  induction A using reverseRecOn with
  | nil => exact h
  | append_singleton A k ih =>
    rw [assemble_concat] at h
    rcases eq_or_mem_of_mem_place h with rfl | h
    · simp
    · exact mem_append_left _ (ih h)

lemma mem_assemble (hi : i.val ≠ 0) : i ∈ assemble A ↔ i ∈ A := by
  refine ⟨mem_of_mem_assemble, ?_⟩
  induction A using reverseRecOn with
  | nil => exact id
  | append_singleton A k ih =>
    intro h
    rw [assemble_concat]
    rcases mem_append.mp h with h | h
    · exact (sublist_place k _).subset (ih h)
    · obtain rfl := mem_singleton.mp h
      exact mem_place_self.mpr (Or.inl hi)

lemma sublist_assemble (h : P <+: A) : (assemble P).Sublist (assemble A) := by
  induction A using reverseRecOn with
  | nil =>
    rw [prefix_nil.mp h]
  | append_singleton A k ih =>
    rcases prefix_concat_iff.mp h with rfl | h
    · exact List.Sublist.refl _
    · rw [assemble_concat]
      exact (ih h).trans (sublist_place k _)

lemma assemble_eq_nil : assemble A = [] ↔ A = [] := by
  constructor
  · intro h
    cases A with
    | nil => rfl
    | cons k A =>
      -- the first arrival meets the empty list, and what is in the list stays there
      have hk : k ∈ assemble [k] := mem_place_self.mpr (Or.inr (Or.inr (Or.inl rfl)))
      have hle := sublist_assemble (prefix_append [k] A)
      rw [singleton_append, h] at hle
      exact absurd (hle.subset hk) (by simp)
  · rintro rfl
    rfl

lemma mem_assemble_first (hi : i.val = 0) :
    i ∈ assemble A ↔ ∃ pre, pre ++ [i] <+: A ∧ (pre = [] ∨ ∃ j ∈ pre, j.val = i.val + 1) := by
  -- an arrival that puts the link into the list
  have harrive : ∀ pre : List (Fin n), (pre = [] ∨ ∃ j ∈ pre, j.val = i.val + 1) →
      i ∈ assemble (pre ++ [i]) := by
    intro pre hpre
    rw [assemble_concat]
    refine mem_place_self.mpr (Or.inr (Or.inr ?_))
    rcases hpre with rfl | ⟨j, hj, hji⟩
    · exact Or.inl rfl
    · exact Or.inr ⟨j, (mem_assemble (by omega)).mpr hj, hji⟩
  constructor
  · induction A using reverseRecOn with
    | nil => intro h; simp [assemble] at h
    | append_singleton A k ih =>
      intro h
      by_cases hin : i ∈ assemble A
      · obtain ⟨pre, hpre, hok⟩ := ih hin
        exact ⟨pre, hpre.trans (prefix_append A [k]), hok⟩
      rw [assemble_concat] at h
      obtain rfl := (eq_or_mem_of_mem_place h).resolve_right hin
      refine ⟨A, prefix_rfl, ?_⟩
      rcases mem_place_self.mp h with h0 | hmem | hnil | ⟨j, hj, hji⟩
      · exact absurd hi h0
      · exact absurd hmem hin
      · exact Or.inl (assemble_eq_nil.mp hnil)
      · exact Or.inr ⟨j, mem_of_mem_assemble hj, hji⟩
  · intro ⟨pre, hpre, hok⟩
    exact (sublist_assemble hpre).subset (harrive pre hok)

/-! ## The orders of arrival that work -/

/-- No link but the first arrives (for the first time) at a moment when a later one is there
and its successor is not. -/
def Ordered (A : List (Fin n)) : Prop :=
  ∀ pre i, pre ++ [i] <+: A → i ∉ pre → i.val ≠ 0 → (∃ j ∈ pre, j.val = i.val + 1) ∨ ∀ j ∈ pre, j < i

/-- The order of arrival fits: it is `Ordered`, and the first link arrives before every other
one or, at least once, after its successor. -/
def Fits (A : List (Fin n)) : Prop :=
  Ordered A ∧ ∀ i : Fin n, i.val = 0 → ∃ pre, pre ++ [i] <+: A ∧ (pre = [] ∨ ∃ j ∈ pre, j.val = i.val + 1)

lemma Ordered.initial (h : Ordered A) (hP : P <+: A) : Ordered P :=
  fun pre i hpre => h pre i (hpre.trans hP)

lemma sorted_insertBefore (hP : P.Pairwise (· < ·)) (hi : i ∉ P)
    (hq : insertBefore (fun j : Fin n => decide (j.val = i.val + 1)) i P = some Q) :
    Q.Pairwise (· < ·) := by
  obtain ⟨pre, x, post, rfl, rfl, hx, -⟩ := insertBefore_eq_some.mp hq
  have hx' : x.val = i.val + 1 := of_decide_eq_true hx
  obtain ⟨hpre, hpost, hcross⟩ := pairwise_append.mp hP
  have hixs : ∀ y ∈ x :: post, i < y := by
    intro y hy
    rcases mem_cons.mp hy with rfl | hy
    · exact Fin.lt_def.mpr (by omega)
    · have hxy : x < y := rel_of_pairwise_cons hpost hy
      exact Fin.lt_def.mpr (by have := Fin.lt_def.mp hxy; omega)
  refine pairwise_append.mpr ⟨hpre, pairwise_cons.mpr ⟨hixs, hpost⟩, ?_⟩
  intro y hy z hz
  rcases mem_cons.mp hz with rfl | hz
  · -- below the successor and not the link itself
    have hyx : y < x := hcross y hy x (by simp)
    have hne : y ≠ z := fun h => hi (mem_append_left _ (h ▸ hy))
    exact Fin.lt_def.mpr (by have := Fin.lt_def.mp hyx; omega)
  · exact hcross y hy z hz

/-- Step. An arrival in order keeps the list sorted. -/
theorem sorted_place (hP : (assemble A).Pairwise (· < ·))
    (hord : i ∉ A → i.val ≠ 0 → (∃ j ∈ A, j.val = i.val + 1) ∨ ∀ j ∈ A, j < i) :
    (place i (assemble A)).Pairwise (· < ·) := by
  by_cases hi : i ∈ assemble A
  · rwa [place_of_mem hi]
  rcases insertBefore_successor i (assemble A) with ⟨Q, hq, -⟩ | hs
  · rw [place_of_insert hi hq]
    exact sorted_insertBefore hP hi hq
  rw [place_of_lone hi hs]
  split
  · exact hP
  next h0 =>
  refine pairwise_append.mpr ⟨hP, pairwise_singleton _ _, ?_⟩
  intro j hj k hk
  obtain rfl := mem_singleton.mp hk
  by_cases hk0 : k.val = 0
  · -- the first link is appended to the empty list only
    have hnil : assemble A = [] := by
      by_contra hne
      exact h0 ⟨hk0, hne⟩
    rw [hnil] at hj
    cases hj
  · have hkA : k ∉ A := fun h => hi ((mem_assemble hk0).mpr h)
    rcases hord hkA hk0 with ⟨s, hsA, hsk⟩ | hall
    · exact absurd hsk (hs s ((mem_assemble (by omega)).mpr hsA))
    · exact hall j (mem_of_mem_assemble hj)

/-- Run. Arrivals in order leave a sorted list. -/
theorem Ordered.sorted (h : Ordered A) : (assemble A).Pairwise (· < ·) := by
  induction A using reverseRecOn with
  | nil => exact List.Pairwise.nil
  | append_singleton A k ih =>
    rw [assemble_concat]
    exact sorted_place (ih (h.initial (prefix_append A [k]))) (h A k prefix_rfl)

/-- An arrival out of order is put behind a later link, and stays there. -/
lemma ordered_of_sorted (hs : (assemble A).Pairwise (· < ·)) : Ordered A := by
  intro pre i hpre hi h0
  by_contra hnot
  obtain ⟨hsucc, hlater⟩ := not_or.mp hnot
  obtain ⟨j, hj⟩ := not_forall.mp hlater
  obtain ⟨hjpre, hij⟩ := Classical.not_imp.mp hj
  have hi' : i ∉ assemble pre := fun h => hi (mem_of_mem_assemble h)
  have hne : ∀ k ∈ assemble pre, k.val ≠ i.val + 1 :=
    fun k hk hki => hsucc ⟨k, mem_of_mem_assemble hk, hki⟩
  have hplace : assemble (pre ++ [i]) = assemble pre ++ [i] := by
    rw [assemble_concat, place_of_lone hi' hne, if_neg fun h => h0 h.1]
  have hsub := hs.sublist (sublist_assemble hpre)
  rw [hplace] at hsub
  have hj0 : j.val ≠ 0 := by
    omega
  have hji := (pairwise_append.mp hsub).2.2 j ((mem_assemble hj0).mpr hjpre) i (by simp)
  exact absurd hji hij

/-- The chain is put together if and only if the order of arrival fits, provided that every
link arrives. -/
theorem assemble_iff (hall : ∀ i, i ∈ A) : assemble A = finRange n ↔ Fits A := by
  constructor
  · intro h
    refine ⟨ordered_of_sorted ?_, ?_⟩
    · rw [h]
      exact (sortedLT_finRange n).pairwise
    · intro i hi
      refine (mem_assemble_first hi).mp ?_
      rw [h]
      exact mem_finRange i
  · intro ⟨hord, hfirst⟩
    refine hord.sorted.eq_of_mem_iff (sortedLT_finRange n).pairwise fun i => ?_
    simp only [mem_finRange, iff_true]
    by_cases hi : i.val = 0
    · exact (mem_assemble_first hi).mpr (hfirst i hi)
    · exact (mem_assemble hi).mpr (hall i)

end Assembly
