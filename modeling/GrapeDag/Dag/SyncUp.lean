/-
THE GRAPH IS REBUILT AT START-UP.

`syncUp` of `src/dag/sync.go` searches the links behind the last one that it found, but takes
the index in that REST of the list for a position in the whole list. So the search never gets
past the last link of the vertex, unless the first one that it finds is the last.

Main result: `edges_rebuilt_iff`.
-/
import GrapeDag.Dag.Graph

namespace GrapeDag

open List

namespace Dag

/-- `goterators.Find` over the links behind position `i`: the index in what is left. -/
def findSource (links : List Link) (id : NodeId) (i : Nat) : Option Nat :=
  (links.drop i).findIdx? fun l => l.source.id = id

/-- The loop of `fn` in `syncUp`, for at most `turns` turns; `none` if it still goes on. -/
def edgesFrom (links : List Link) (id : NodeId) : Nat → Nat → List NodeId → Option (List NodeId)
  | 0, _, _ => none
  | turns + 1, i, e =>
      if i < links.length then
        match findSource links id i with
        -- the next search starts at `idx + 1`, not at `i + idx + 1`
        | some idx => edgesFrom links id turns (idx + 1) (e ++ ((links.drop i)[idx]?.map (·.target)).toList)
        | none => some e
      else some e

def rebuildEdges (links : List Link) (id : NodeId) (turns : Nat) : Option (List NodeId) :=
  if id = 0 then some [] else edgesFrom links id turns 0 []

/-- The targets of the links of a vertex, in list order; none for the nil id. -/
def linkedTargets (links : List Link) (id : NodeId) : List NodeId :=
  if id = 0 then [] else (links.filter fun l => l.source.id = id).map (·.target)

variable {links : List Link} {id : NodeId}

/-- Step. A search that starts behind the first position and not behind the link at `k` finds a
link, and the next search does not start behind it either. -/
theorem findSource_le {k i : Nat} {l : Link} (hl : links[k]? = some l) (hid : l.source.id = id)
    (hi : 0 < i) (hik : i ≤ k) : ∃ idx, findSource links id i = some idx ∧ idx + 1 ≤ k := by
  have hat : (links.drop i)[k - i]? = some l := by
    rw [getElem?_drop, Nat.add_sub_cancel' hik, hl]
  cases hfind : findSource links id i with
  | none =>
    have hnone := findIdx?_eq_none_iff.mp hfind l (mem_of_getElem? hat)
    simp [hid] at hnone
  | some idx =>
    refine ⟨idx, rfl, ?_⟩
    obtain ⟨hlt, -, hfirst⟩ := findIdx?_eq_some_iff_getElem.mp hfind
    by_contra hbeyond
    -- the link at `k` would be one that the search has passed
    obtain ⟨hk, hget⟩ := List.getElem?_eq_some_iff.mp hat
    have hpassed := hfirst (k - i) (by omega)
    rw [hget] at hpassed
    simp [hid] at hpassed

theorem edgesFrom_diverges {k : Nat} {l : Link} (hl : links[k]? = some l)
    (hid : l.source.id = id) (turns : Nat) :
    ∀ i e, 0 < i → i ≤ k → edgesFrom links id turns i e = none := by
  obtain ⟨hk, -⟩ := List.getElem?_eq_some_iff.mp hl
  induction turns with
  | zero => exact fun _ _ _ _ => rfl
  | succ turns ih =>
    intro i e hi hik
    obtain ⟨idx, hfind, hle⟩ := findSource_le hl hid hi hik
    unfold edgesFrom
    rw [if_pos (by omega), hfind]
    exact ih _ _ (Nat.succ_pos idx) hle

lemma edgesFrom_of_none {i : Nat} (h : findSource links id i = none) (e : List NodeId)
    (turns : Nat) : edgesFrom links id (turns + 1) i e = some e := by
  unfold edgesFrom
  rw [h]
  split <;> rfl

lemma edgesFrom_first {pre post : List Link} {l : Link} (hid : l.source.id = id)
    (hpre : ∀ x ∈ pre, x.source.id ≠ id) (turns : Nat) :
    edgesFrom (pre ++ l :: post) id (turns + 1) 0 []
      = edgesFrom (pre ++ l :: post) id turns (pre.length + 1) [l.target] := by
  have hnone : pre.findIdx? (fun x => x.source.id = id) = none := by
    rw [findIdx?_eq_none_iff]
    intro x hx
    simpa using hpre x hx
  have hfind : findSource (pre ++ l :: post) id 0 = some pre.length := by
    simp [findSource, findIdx?_append, hnone, findIdx?_cons, hid]
  rw [edgesFrom, hfind]
  simp

/-- **START-UP.** For every list of links and every vertex, the enumeration ends with the targets
of the vertex's links, each once and in list order, if and only if the id is nil or the vertex has
at most one link. -/
theorem edges_rebuilt_iff (links : List Link) (id : NodeId) :
    (∃ turns, rebuildEdges links id turns = some (linkedTargets links id)) ↔
      id = 0 ∨ (links.filter fun l => l.source.id = id).length ≤ 1 := by
  unfold rebuildEdges linkedTargets
  by_cases hnil : id = 0
  · simp [hnil]
  simp only [hnil, if_false, false_or]
  cases hall : links.filter (fun l => l.source.id = id) with
  | nil =>
    have hnone : findSource links id 0 = none := by
      rw [findSource, findIdx?_eq_none_iff]
      intro x hx
      simpa using filter_eq_nil_iff.mp hall x hx
    exact ⟨fun _ => by simp, fun _ => ⟨1, edgesFrom_of_none hnone [] 0⟩⟩
  | cons l rest =>
    obtain ⟨pre, post, rfl, hpre, hid, hrest⟩ := filter_eq_cons_iff.mp hall
    have hid : l.source.id = id := by simpa using hid
    have hpre : ∀ x ∈ pre, x.source.id ≠ id := fun x hx => by simpa using hpre x hx
    cases rest with
    | nil =>
      -- behind the only link there is nothing to find
      have hnone : findSource (pre ++ l :: post) id (pre.length + 1) = none := by
        have hdrop : (pre ++ l :: post).drop (pre.length + 1) = post := by simp
        rw [findSource, hdrop, findIdx?_eq_none_iff]
        intro x hx
        simpa using filter_eq_nil_iff.mp hrest x hx
      refine ⟨fun _ => by simp, fun _ => ⟨2, ?_⟩⟩
      rw [edgesFrom_first hid hpre, edgesFrom_of_none hnone]
      rfl
    | cons l' rest =>
      obtain ⟨mid, last, rfl, -, hid', -⟩ := filter_eq_cons_iff.mp hrest
      have hid' : l'.source.id = id := by simpa using hid'
      have hl' : (pre ++ l :: (mid ++ l' :: last))[pre.length + 1 + mid.length]? = some l' := by
        rw [getElem?_append_right (by omega)]
        simp [show pre.length + 1 + mid.length - pre.length = mid.length + 1 by omega]
      refine ⟨?_, fun hle => by simp at hle⟩
      rintro ⟨turns, hturns⟩
      cases turns with
      | zero => cases hturns
      | succ turns =>
        rw [edgesFrom_first hid hpre, edgesFrom_diverges hl' hid' turns _ _ (by omega) (by omega)]
          at hturns
        cases hturns

/-- A vertex with two targets, as every vertex has that finds two tips: the enumeration of its edges
does not end. -/
theorem two_links_never_rebuilt :
    ¬ ∃ turns targets, rebuildEdges [⟨⟨1, 0, 0⟩, 2⟩, ⟨⟨1, 0, 0⟩, 3⟩] 1 turns = some targets := by
  intro ⟨turns, targets, hends⟩
  cases turns with
  | zero => cases hends
  | succ turns =>
    have hlast : [(⟨⟨1, 0, 0⟩, 2⟩ : Link), ⟨⟨1, 0, 0⟩, 3⟩][1]? = some ⟨⟨1, 0, 0⟩, 3⟩ := rfl
    have hnever := edgesFrom_diverges hlast rfl turns 1 [2] (by decide) (by decide)
    exact Option.some_ne_none _ (hends.symm.trans hnever)

end Dag

end GrapeDag
