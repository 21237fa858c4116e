/-
FINITE MAPS AND SUMS OVER THEM.

A finite map is Mathlib's association list with distinct keys (`AList`), which can be enumerated
and evaluated. Added here: the sum of a quantity over all values, and how it moves when an
entry is written or erased.
-/
import Mathlib.Algebra.BigOperators.Group.List.Basic
import Mathlib.Data.List.AList
import Mathlib.Tactic.Ring

abbrev FinMap (κ ν : Type) := AList (fun _ : κ => ν)

namespace FinMap

open List

variable {κ ν : Type} [DecidableEq κ]

def getD (m : FinMap κ ν) (k : κ) (d : ν) : ν := (m.lookup k).getD d

/-- The sum of `f v` over the values `v` of the map. -/
def sumBy (f : ν → Int) (m : FinMap κ ν) : Int := (m.entries.map fun e => f e.2).sum

/-- What the entry of `k` contributes to `sumBy f`. -/
def share (f : ν → Int) (m : FinMap κ ν) (k : κ) : Int := ((m.lookup k).map f).getD 0

private lemma sum_kerase (f : ν → Int) (k : κ) (l : List (Sigma fun _ : κ => ν)) :
    ((l.kerase k).map fun e => f e.2).sum = (l.map fun e => f e.2).sum - ((l.dlookup k).map f).getD 0 := by
  induction l with
  | nil => simp
  | cons e l ih =>
    by_cases hk : k = e.1
    · subst hk
      have hv : List.dlookup e.1 (e :: l) = some e.2 := List.dlookup_cons_eq l e.1 e.2
      rw [hv]
      simp
    · rw [List.kerase_cons_ne hk, List.dlookup_cons_ne l e hk]
      simp only [List.map_cons, List.sum_cons, ih]
      ring

/-- Writing an entry moves the sum by the new value minus the old one. -/
theorem sumBy_insert (f : ν → Int) (m : FinMap κ ν) (k : κ) (v : ν) :
    sumBy f (m.insert k v) = sumBy f m + f v - share f m k := by
  show ((kinsert k v m.entries).map fun e => f e.2).sum = _
  rw [kinsert_def, map_cons, sum_cons, sum_kerase]
  unfold sumBy share AList.lookup
  ring

lemma sumBy_congr (f : ν → Int) {m m' : FinMap κ ν} (h : ∀ k, m.lookup k = m'.lookup k) :
    sumBy f m = sumBy f m' := by
  have hperm : m.entries.Perm m'.entries := by
    refine lookup_ext m.nodupKeys m'.nodupKeys fun k v => ?_
    show v ∈ m.lookup k ↔ v ∈ m'.lookup k
    rw [h k]
  exact (hperm.map _).sum_eq

lemma lookup_insert_eq_ite (m : FinMap κ ν) (k k' : κ) (v : ν) :
    (m.insert k v).lookup k' = if k' = k then some v else m.lookup k' := by
  by_cases h : k' = k
  · subst h; simp
  · simp [h, AList.lookup_insert_ne h]

lemma lookup_erase_eq_ite (m : FinMap κ ν) (k k' : κ) :
    (m.erase k).lookup k' = if k' = k then none else m.lookup k' := by
  by_cases h : k' = k
  · subst h; simp
  · simp [h, AList.lookup_erase_ne h]

def writeAll (entries : List (Sigma fun _ : κ => ν)) (m : FinMap κ ν) : FinMap κ ν :=
  entries.foldl (fun m e => m.insert e.1 e.2) m

lemma lookup_writeAll {entries : List (Sigma fun _ : κ => ν)} (h : entries.NodupKeys)
    (m : FinMap κ ν) (k : κ) :
    (writeAll entries m).lookup k = (entries.dlookup k).or (m.lookup k) := by
  induction entries generalizing m with
  | nil => rfl
  | cons e entries ih =>
    obtain ⟨hnew, hrest⟩ := nodupKeys_cons.mp h
    show (writeAll entries (m.insert e.1 e.2)).lookup k = _
    rw [ih hrest, lookup_insert_eq_ite]
    by_cases hk : k = e.1
    · subst hk
      have hnone : entries.dlookup e.1 = none := dlookup_eq_none.mpr hnew
      have hcons : dlookup e.1 (e :: entries) = some e.2 := dlookup_cons_eq entries e.1 e.2
      rw [hnone, hcons, if_pos rfl]
      rfl
    · rw [if_neg hk, dlookup_cons_ne entries e hk]

def values (m : FinMap κ ν) : List ν := m.entries.map (·.2)

lemma mem_values_erase {m : FinMap κ ν} {k : κ} {v : ν} (h : v ∈ values (m.erase k)) :
    ∃ k' ≠ k, m.lookup k' = some v := by
  obtain ⟨⟨k', v'⟩, hmem, rfl⟩ := mem_map.mp h
  have hlook : (m.erase k).lookup k' = some v' := AList.mem_lookup_iff.mpr hmem
  rw [lookup_erase_eq_ite] at hlook
  by_cases hk : k' = k
  · rw [if_pos hk] at hlook
    cases hlook
  · rw [if_neg hk] at hlook
    exact ⟨k', hk, hlook⟩

theorem perm_values_erase (m : FinMap κ ν) (k : κ) :
    (values m).Perm ((m.lookup k).toList ++ values (m.erase k)) := by
  cases hk : m.lookup k with
  | none =>
    have hsame : (m.erase k).entries.Perm m.entries := by
      refine lookup_ext (m.erase k).nodupKeys m.nodupKeys fun x v => ?_
      show v ∈ (m.erase k).lookup x ↔ v ∈ m.lookup x
      rw [lookup_erase_eq_ite]
      by_cases hx : x = k
      · rw [if_pos hx, hx, hk]
      · rw [if_neg hx]
    exact (hsame.map _).symm
  | some v =>
    have hsame : ((m.erase k).insert k v).entries.Perm m.entries := by
      refine lookup_ext ((m.erase k).insert k v).nodupKeys m.nodupKeys fun x w => ?_
      show w ∈ ((m.erase k).insert k v).lookup x ↔ w ∈ m.lookup x
      rw [lookup_insert_eq_ite, lookup_erase_eq_ite]
      by_cases hx : x = k
      · rw [if_pos hx, hx, hk]
      · rw [if_neg hx, if_neg hx]
    have hnew : k ∉ m.erase k := fun h => (AList.mem_erase.mp h).1 rfl
    have hfront : ((m.erase k).insert k v).entries = ⟨k, v⟩ :: (m.erase k).entries :=
      AList.entries_insert_of_notMem hnew
    rw [hfront] at hsame
    exact (hsame.map _).symm

lemma flatten_eq_of_perm {α : Type} {ls rest : List (List α)} {v : List α}
    (h : ls.Perm (v :: rest)) (hrest : ∀ r ∈ rest, r = []) : ls.flatten = v := by
  obtain ⟨before, after, rfl⟩ := append_of_mem (h.mem_iff.mpr mem_cons_self)
  have hothers : (before ++ after).Perm rest := List.Perm.cons_inv (perm_middle.symm.trans h)
  have hempty : (before ++ after).flatten = [] :=
    flatten_eq_nil_iff.mpr fun r hr => hrest r (hothers.mem_iff.mp hr)
  rw [flatten_append, append_eq_nil_iff] at hempty
  rw [flatten_append, flatten_cons, hempty.1, hempty.2, nil_append, append_nil]

end FinMap
